import Mathlib
import SlotScript.Proofs.Result
import SlotScript.Proofs.Flat.Grow

/-!
# Who holds which entries

Whatever a builder works on holds some entries of the arena: a link holds those of the tree under it.
A `Holding` counts how often each entry is held, and adds a weight: one for every link that is held,
and two for every node that is still to be made, so that the weight pays for the node and for the
link to it.

`Arena.Covers` is the invariant. No entry is held twice, and storage and weight together stay within
twice the number of tokens. The first keeps trees apart, the second keeps links within their limit.
A step works on what is its own and leaves the `rest` alone: holdings add up.

`Refines` compares a step in an arena with a step on trees. Both succeed with related results, or both
stop with the same fault; the step in the arena does not crash.
-/

namespace SlotScript.Flat

/-! ## Steps that do the same -/

/-- Two steps succeed with related results, or stop with the same fault. -/
inductive Refines (R : α → β → Prop) : Except Halt α → Except BuildError β → Prop
  | ok {x : α} {y : β} : R x y → Refines R (.ok x) (.ok y)
  | fault (e : BuildError) : Refines R (.error (.fault e)) (.error e)

namespace Refines

variable {R : α → β → Prop} {S : γ → δ → Prop}

theorem bind {x : Except Halt α} {y : Except BuildError β} {f : α → Except Halt γ}
    {g : β → Except BuildError δ} (h : Refines R x y)
    (hf : ∀ x y, R x y → Refines S (f x) (g y)) : Refines S (x >>= f) (y >>= g) := by
  cases h with
  | ok hxy => exact hf _ _ hxy
  | fault e => exact .fault e

/-- A step that only the arena needs. -/
theorem bind_left {x : Except Halt α} {y : β} {f : α → Except Halt γ} {z : Except BuildError δ}
    (h : Refines R x (.ok y)) (hf : ∀ x, R x y → Refines S (f x) z) : Refines S (x >>= f) z := by
  cases h with
  | ok hxy => exact hf _ hxy

/-- A change that only the step on trees makes to its result. -/
theorem map_right {S : α → δ → Prop} {x : Except Halt α} {y : Except BuildError β} {g : β → δ}
    (h : Refines R x y) (hS : ∀ x y, R x y → S x (g y)) :
    Refines S x (y >>= fun y => .ok (g y)) := by
  cases h with
  | ok hxy => exact .ok (hS _ _ hxy)
  | fault e => exact .fault e

/-- The result of the step on trees is the result of that step. -/
theorem attach {x : Except Halt α} {y : Except BuildError β} (h : Refines R x y) :
    Refines (fun a b => R a b ∧ y = .ok b) x y := by
  cases h with
  | ok hxy => exact .ok ⟨hxy, rfl⟩
  | fault e => exact .fault e

theorem imp {R' : α → β → Prop} (h : Refines R x y) (hR : ∀ x y, R x y → R' x y) :
    Refines R' x y := by
  cases h with
  | ok hxy => exact .ok (hR _ _ hxy)
  | fault e => exact .fault e

end Refines

/-! ## Holdings -/

/-- How often each entry is held, and a weight. -/
abbrev Holding := Multiset Nat × Nat

/-- What it takes to make a node: room for the node and for the link to it. -/
def Holding.due : Holding := (0, 2)

@[simp] theorem Holding.fst_due : Holding.due.1 = 0 := rfl

@[simp] theorem Holding.snd_due : Holding.due.2 = 2 := rfl

/-- Of so many tokens an arena can have been made that somebody has this hold of. -/
structure Arena.Covers (a : Arena) (tokens : Nat) (h : Holding) : Prop where
  cells : h.1 ≤ Multiset.range a.entries.length
  room : a.entries.length + a.links.length + a.formals.length + h.2 ≤ 2 * tokens

namespace Arena

variable {a a' : Arena} {tokens : Nat} {h h' rest : Holding}

theorem Covers.mono (hc : a.Covers tokens h) (hle : h' ≤ h) : a.Covers tokens h' where
  cells := hle.1.trans hc.cells
  room := by
    have hsnd : h'.2 ≤ h.2 := hle.2
    have hroom := hc.room
    omega

theorem Covers.of_eq (hc : a.Covers tokens h) (heq : h' = h) : a.Covers tokens h' := heq ▸ hc

/-- Nobody has to keep hold of an entry. -/
theorem Covers.forget (hc : a.Covers tokens (h' + h)) : a.Covers tokens h := hc.mono le_add_self

/-- A token pays for a node. -/
theorem Covers.token (hc : a.Covers tokens h) : a.Covers (tokens + 1) (h + Holding.due) where
  cells := by simpa using hc.cells
  room := by
    have hroom := hc.room
    simp only [Prod.snd_add, Holding.snd_due]
    omega

/-- The link holds the tree under it. -/
def Held (a : Arena) (h : Holding) (i : Nat) (node : Node) : Prop :=
  a.tree? i = some node ∧ h = (↑(a.cells i), 1)

theorem Held.grows (hi : a.Held h i node) (hg : a.Grows a') : a'.Held h i node :=
  ⟨tree?_grows hg hi.1, by rw [cells_grows hg hi.1, hi.2]⟩

/-- What the builder sees of a node that it holds. -/
theorem Held.entry (hi : a.Held h i node) : ∃ cell, a.entry i = .ok ⟨cell, node.span⟩ ∧
    ((∃ name var span, cell = .ident name var ∧ node = .ident name var span) ∨
      (∃ range body span, cell = .block range ∧ node = .block body span) ∨
      (∃ target var j value span, cell = .assign target var .plain none j ∧
        a.tree? j = some value ∧ node = .assign target var .plain none value span) ∨
      cell.isOpen = false ∧ node.isOpen = false) := by
  obtain ⟨⟨cell, span⟩, hentry, hnode⟩ := tree?_eq_some_iff.1 hi.1
  obtain rfl : node.span = span := Entry.span_of_node? hnode
  refine ⟨cell, by rw [Arena.entry, hentry], ?_⟩
  rcases Entry.isOpen_of_node? hnode with ⟨name, var, hcell, heq⟩ | ⟨range, body, hcell, heq⟩ |
    ⟨target, var, j, value, hcell, hj, heq⟩ | hclosed
  · exact .inl ⟨name, var, _, hcell, heq⟩
  · exact .inr (.inl ⟨range, body, _, hcell, heq⟩)
  · refine .inr (.inr (.inl ⟨target, var, j, value, _, hcell, ?_, heq⟩))
    split at hj
    · exact hj
    · cases hj
  · exact .inr (.inr (.inr hclosed))

/-- A tree holds what its links hold. -/
theorem Held.cells_eq (hi : a.Held h i node) {entry : Entry} (hentry : a.entry i = .ok entry)
    {links : List Nat} (hlinks : entry.cell.links? a = some links) :
    h = (i ::ₘ ↑(links.flatMap a.cells), 1) := by
  obtain ⟨links', hlinks', hcells⟩ := cells_of_tree? hi.1
  have hsome : a.entries[i]? = some entry := by
    unfold Arena.entry at hentry
    split at hentry
    · rename_i hsome
      rw [hsome, Except.ok.inj hentry]
    · cases hentry
  rw [links?, hsome, Option.bind_some, hlinks] at hlinks'
  rw [hi.2, hcells, Option.some.inj hlinks', Multiset.cons_coe]

theorem Held.spanOf (hi : a.Held h i node) : a.spanOf i = .ok node.span := by
  obtain ⟨cell, hentry, -⟩ := hi.entry
  rw [Arena.spanOf, hentry]
  rfl

end Arena

/-- The elements of two lists are related, and what they hold adds up. -/
inductive Each (R : Holding → α → β → Prop) : Holding → List α → List β → Prop
  | nil : Each R 0 [] []
  | cons {h h' : Holding} {x : α} {y : β} {xs : List α} {ys : List β} :
    R h x y → Each R h' xs ys → Each R (h + h') (x :: xs) (y :: ys)

namespace Each

variable {R S : Holding → α → β → Prop} {h h' : Holding} {xs xs' : List α} {ys ys' : List β}

theorem imp (hxs : Each R h xs ys) (hRS : ∀ h x y, R h x y → S h x y) : Each S h xs ys := by
  induction hxs with
  | nil => exact .nil
  | cons hxy _ ih => exact .cons (hRS _ _ _ hxy) ih

theorem append (hxs : Each R h xs ys) (hxs' : Each R h' xs' ys') :
    Each R (h + h') (xs ++ xs') (ys ++ ys') := by
  induction hxs with
  | nil => rwa [zero_add]
  | cons hxy _ ih => rw [add_assoc]; exact .cons hxy ih

theorem single {x : α} {y : β} (hxy : R h x y) : Each R h [x] [y] := by
  simpa using Each.cons hxy (.nil (R := R))

theorem reverse (hxs : Each R h xs ys) : Each R h xs.reverse ys.reverse := by
  induction hxs with
  | nil => exact .nil
  | cons hxy _ ih =>
    rw [List.reverse_cons, List.reverse_cons, add_comm]
    exact ih.append (single hxy)

theorem length_eq (hxs : Each R h xs ys) : xs.length = ys.length := by
  induction hxs with
  | nil => rfl
  | cons _ _ ih => rw [List.length_cons, List.length_cons, ih]

theorem of_cons_left {x : α} (hxs : Each R h (x :: xs) ys) : ∃ h₁ h₂ y ys', h = h₁ + h₂ ∧
    ys = y :: ys' ∧ R h₁ x y ∧ Each R h₂ xs ys' := by
  cases hxs with
  | cons hxy hxs => exact ⟨_, _, _, _, rfl, rfl, hxy, hxs⟩

/-- The first elements and the others. -/
theorem split (hxs : Each R h xs ys) (k : Nat) : ∃ h₁ h₂, h = h₁ + h₂ ∧
    Each R h₁ (xs.take k) (ys.take k) ∧ Each R h₂ (xs.drop k) (ys.drop k) := by
  induction hxs generalizing k with
  | nil => exact ⟨0, 0, rfl, by simpa using Each.nil, by simpa using Each.nil⟩
  | @cons h h' _ _ _ _ hxy hxs ih =>
    cases k with
    | zero => exact ⟨0, h + h', (zero_add _).symm, .nil, .cons hxy hxs⟩
    | succ k =>
      obtain ⟨h₁, h₂, rfl, htake, hdrop⟩ := ih k
      exact ⟨h + h₁, h₂, (add_assoc _ _ _).symm, .cons hxy htake, hdrop⟩

end Each

theorem each_held {a : Arena} {h : Holding} {links : List Nat} {nodes : List Node}
    (hlinks : Each a.Held h links nodes) :
    links.mapM a.tree? = some nodes ∧ h = (↑(links.flatMap a.cells), links.length) := by
  induction hlinks with
  | nil => exact ⟨rfl, rfl⟩
  | cons hxy _ ih =>
    obtain ⟨hnodes, rfl⟩ := ih
    obtain ⟨hnode, rfl⟩ := hxy
    constructor
    · simp [hnode, hnodes]
    · rw [List.flatMap_cons, List.length_cons, Prod.mk_add_mk, Multiset.coe_add, add_comm 1]

/-! ## Allocation -/

/-- The result of a step that starts in `a`: the arena has grown, and what was made is held besides
the rest. -/
def Yields (a : Arena) (tokens : Nat) (rest : Holding) (R : Arena → Holding → α → β → Prop)
    (out : α × Arena) (y : β) : Prop :=
  a.Grows out.2 ∧ ∃ h, R out.2 h out.1 y ∧ out.2.Covers tokens (h + rest)

theorem Yields.trans {a a' : Arena} {tokens : Nat} {rest : Holding}
    {R : Arena → Holding → α → β → Prop} {out : α × Arena} {y : β}
    (h : Yields a' tokens rest R out y) (hg : a.Grows a') : Yields a tokens rest R out y :=
  ⟨hg.trans h.1, h.2⟩

/-- More tokens than this could make more entries than links can tell apart. -/
def tokenLimit : Nat := 2 ^ 30

namespace Arena

variable {a : Arena} {tokens : Nat} {h rest : Holding}

theorem toLink_of_le {size : Nat} (hsize : size ≤ 2 * tokens) (htokens : tokens < tokenLimit) :
    toLink size = .ok size := by
  unfold tokenLimit at htokens
  exact if_pos (by unfold linkLimit; omega)

/-- A new node holds what its parts held, and is paid for. -/
theorem alloc_refines {cell : Cell} {span : Span} {links : List Nat} {node : Node}
    (htokens : tokens < tokenLimit) (hlinks : cell.links? a = some links)
    (hnode : Entry.node? a a.tree? ⟨cell, span⟩ = some node)
    (hcells : h.1 = ↑(links.flatMap a.cells)) (hc : a.Covers tokens (Holding.due + h + rest)) :
    Refines (Yields a tokens rest Held) (a.alloc cell span) (.ok node) := by
  have hroom := hc.room
  rw [alloc, toLink_of_le (by omega) htokens]
  have hentry : (a.entries ++ [⟨cell, span⟩])[a.entries.length]? = some ⟨cell, span⟩ := by
    rw [List.getElem?_append_right (Nat.le_refl _), Nat.sub_self]
    rfl
  let a' : Arena := { a with entries := a.entries ++ [⟨cell, span⟩] }
  have hg : a.Grows a' := ⟨List.prefix_append _ _, List.prefix_rfl, List.prefix_rfl⟩
  have htree : a'.tree? a.entries.length = some node :=
    tree?_of_node? hentry hg (Nat.le_refl _) hnode
  refine .ok ⟨hg, _, ⟨htree, rfl⟩, ?_, ?_⟩
  · -- The new entry is not among those that were there.
    obtain ⟨links', hlinks', hcells'⟩ := cells_of_tree? htree
    obtain rfl : links = links' := by
      rw [links?, show a'.entries[a.entries.length]? = _ from hentry, Option.bind_some,
        Cell.links?_grows hg hlinks] at hlinks'
      exact Option.some.inj hlinks'
    have hsame : links.flatMap a'.cells = links.flatMap a.cells := by
      refine List.flatMap_congr fun j hj => ?_
      obtain ⟨links', hlinks', hget⟩ := Entry.links?_of_node? hnode
      obtain rfl : links = links' := Option.some.inj (hlinks.symm.trans hlinks')
      obtain ⟨n, hn⟩ := hget j hj
      exact cells_grows hg hn
    have hrange : a'.entries.length = a.entries.length + 1 := by simp [a']
    rw [hrange, Multiset.range_succ, Prod.fst_add]
    show ↑(a'.cells a.entries.length) + rest.1 ≤ _
    rw [hcells', hsame, ← Multiset.cons_coe, Multiset.cons_add, ← hcells]
    exact Multiset.cons_le_cons _ (by simpa using hc.cells)
  · simp only [Prod.snd_add, Holding.snd_due, List.length_append, List.length_cons,
      List.length_nil] at hroom ⊢
    omega

/-- A stretch of links takes the place of the links. -/
theorem allocLinks_refines {links : List Nat} {nodes : List Node} (htokens : tokens < tokenLimit)
    (hlinks : Each a.Held h links nodes) (hc : a.Covers tokens (h + rest)) :
    Refines (Yields a tokens rest fun a' h' range nodes => ∃ links,
      stretch? a'.links range = some links ∧ links.mapM a'.tree? = some nodes ∧
        h' = (↑(links.flatMap a'.cells), 0)) (a.allocLinks links) (.ok nodes) := by
  obtain ⟨hnodes, rfl⟩ := each_held hlinks
  have hroom := hc.room
  simp only [Prod.snd_add] at hroom
  rw [allocLinks, toLink_of_le (by omega) htokens,
    toLink_of_le (by rw [List.length_append]; omega) htokens]
  let a' : Arena := { a with links := a.links ++ links }
  have hg : a.Grows a' := ⟨List.prefix_rfl, List.prefix_append _ _, List.prefix_rfl⟩
  have hsame : links.flatMap a'.cells = links.flatMap a.cells := by
    refine List.flatMap_congr fun j hj => ?_
    obtain ⟨n, hn⟩ := exists_of_mapM hnodes hj
    exact cells_grows hg hn
  refine .ok ⟨hg, _, ⟨links, stretch?_append a.links links,
    mapM_mono (fun _ _ => tree?_grows hg) hnodes, rfl⟩, ?_, ?_⟩
  · show ↑(links.flatMap a'.cells) + rest.1 ≤ _
    rw [hsame]
    exact hc.cells
  · simp only [List.length_append, Prod.snd_add]
    omega

/-! ## Parameters -/

/-- A parameter holds the tree of its default. -/
def HeldFormal (a : Arena) (h : Holding) (formal : Formal) (param : Param) : Prop :=
  formal.param? a.tree? = some param ∧ h = (↑(formal.default.toList.flatMap a.cells), 0)

theorem HeldFormal.grows {a a' : Arena} {h : Holding} {formal : Formal} {param : Param}
    (hformal : a.HeldFormal h formal param) (hg : a.Grows a') : a'.HeldFormal h formal param := by
  obtain ⟨hparam, rfl⟩ := hformal
  refine ⟨Formal.param?_mono (fun _ _ => tree?_grows hg) _ _ hparam, ?_⟩
  congr 2
  refine List.flatMap_congr fun j hj => ?_
  obtain ⟨default, hdefault, -⟩ := Option.map_eq_some_iff.1 hparam
  obtain ⟨n, hn⟩ := optional?_eq_some hdefault j (Option.mem_toList.1 hj)
  exact (cells_grows hg hn).symm

/-- A stretch of parameters holds what they hold. -/
def HeldParams (a : Arena) (h : Holding) (range : Range) (params : List Param) : Prop :=
  ∃ formals, stretch? a.formals range = some formals ∧ Each a.HeldFormal h formals params

theorem HeldParams.grows {a a' : Arena} {h : Holding} {range : Range} {params : List Param}
    (hparams : a.HeldParams h range params) (hg : a.Grows a') : a'.HeldParams h range params := by
  obtain ⟨formals, hformals, heach⟩ := hparams
  exact ⟨formals, stretch?_grows hg.formals hformals, heach.imp fun _ _ _ h => h.grows hg⟩

theorem each_heldFormal {a : Arena} {h : Holding} {formals : List Formal} {params : List Param}
    (hformals : Each a.HeldFormal h formals params) :
    formals.mapM (Formal.param? a.tree?) = some params ∧
      h = (↑((formals.filterMap Formal.default).flatMap a.cells), 0) := by
  induction hformals with
  | nil => exact ⟨rfl, rfl⟩
  | @cons _ _ formal _ _ _ hxy _ ih =>
    obtain ⟨hparams, rfl⟩ := ih
    obtain ⟨hparam, rfl⟩ := hxy
    constructor
    · simp [hparam, hparams]
    · cases hdefault : formal.default with
      | none => simp [hdefault]
      | some i => simp [hdefault]

theorem allocFormals_refines {formals : List Formal} {params : List Param}
    (htokens : tokens < tokenLimit) (hformals : Each a.HeldFormal h formals params)
    (hc : a.Covers tokens (h + (0, formals.length) + rest)) :
    Refines (Yields a tokens rest HeldParams) (a.allocFormals formals) (.ok params) := by
  have hroom := hc.room
  simp only [Prod.snd_add] at hroom
  rw [allocFormals, toLink_of_le (by omega) htokens,
    toLink_of_le (by rw [List.length_append]; omega) htokens]
  let a' : Arena := { a with formals := a.formals ++ formals }
  have hg : a.Grows a' := ⟨List.prefix_rfl, List.prefix_rfl, List.prefix_append _ _⟩
  refine .ok ⟨hg, h, ⟨formals, stretch?_append a.formals formals,
    hformals.imp fun _ _ _ h => h.grows hg⟩, ?_, ?_⟩
  · simpa using hc.cells
  · simp only [List.length_append, Prod.snd_add]
    omega

end Arena

end SlotScript.Flat
