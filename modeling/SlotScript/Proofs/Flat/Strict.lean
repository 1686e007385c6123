import SlotScript.Proofs.Flat.Agreement

/-!
# Strict trees

The links of a layout are those of the program's list of statements and those of the nodes: to
operands, conditions, branches and bodies, to statements and arguments, and to the defaults of
parameters. A layout is strict if every link of a node that can be reached leads to an earlier node
that exists, and exactly one link leads to each node that can be reached.

**Theorem (`build_strict`).** Whatever the tokens are, fewer than 2³⁰ of them either make a strict
layout, which has the trees of the program, or stop the builder with the fault of the program. It
never crashes.

That there is only one link to a node is counted. The nodes under the program's links are what those
links and the links of these nodes lead to, in another order, and no node is there twice
(`Layout.Stores.nodes`).
-/

namespace SlotScript.Flat

/-! ## Links -/

namespace Layout

variable (layout : Layout)

/-- The links of the program's list of statements, or those of a node. -/
def links? : Option Nat → Option (List Nat)
  | none => stretch? layout.arena.links layout.body
  | some i => layout.arena.links? i

/-- The nodes that links lead to from the program's statements. -/
inductive Reaches : Nat → Prop
  | body {links : List Nat} {j : Nat} : layout.links? none = some links → j ∈ links → Reaches j
  | child {i j : Nat} {links : List Nat} : Reaches i → layout.links? (some i) = some links →
    j ∈ links → Reaches j

/-- The link at a position leads to the node. It is one of the program's statements, or it belongs to
a node that can be reached. -/
def LinksTo (source : Option Nat) (position j : Nat) : Prop :=
  (∀ i ∈ source, layout.Reaches i) ∧
    ∃ links, layout.links? source = some links ∧ links[position]? = some j

/-- Links lead to earlier nodes that exist, and one link leads to each. -/
structure Strict : Prop where
  body : ∃ links, layout.links? none = some links
  earlier : ∀ i, layout.Reaches i → i < layout.arena.entries.length ∧
    ∃ links, layout.links? (some i) = some links ∧ ∀ j ∈ links, j < i
  once : ∀ j, layout.Reaches j → ∃! p : Option Nat × Nat, layout.LinksTo p.1 p.2 j

end Layout

/-! ## Counting links -/

theorem eq_of_nodup_flatMap {f : α → List β} {xs : List α} (h : (xs.flatMap f).Nodup) {x y : α}
    (hx : x ∈ xs) (hy : y ∈ xs) {z : β} (hzx : z ∈ f x) (hzy : z ∈ f y) : x = y := by
  by_contra hne
  have : Std.Symm (Function.onFun List.Disjoint f) := ⟨fun _ _ hdisjoint => hdisjoint.symm⟩
  exact (List.nodup_flatMap.1 h).2.forall hx hy hne hzx hzy

namespace Arena

variable {a : Arena} {i : Nat} {node : Node}

/-- The links of a node, none if it does not exist. -/
def linksOf (a : Arena) (i : Nat) : List Nat := (a.links? i).getD []

/-- The nodes under a link are the node and what the links of all these nodes lead to. -/
theorem cells_perm (h : a.tree? i = some node) :
    (a.cells i).Perm (i :: (a.cells i).flatMap a.linksOf) := by
  induction i using Nat.strongRecOn generalizing node with
  | ind i ih =>
    obtain ⟨links, hlinks, hcells⟩ := cells_of_tree? h
    obtain ⟨links', hlinks', hdown⟩ := links?_of_tree? h
    obtain rfl : links = links' := Option.some.inj (hlinks.symm.trans hlinks')
    have hperm : (links.flatMap a.cells).Perm
        (links.flatMap fun j => j :: (a.cells j).flatMap a.linksOf) := by
      refine List.Perm.flatMap_left links fun j hj => ?_
      obtain ⟨hlt, n, hn⟩ := hdown j hj
      exact ih j hlt hn
    have hsplit := List.map_append_flatMap_perm links id fun j => (a.cells j).flatMap a.linksOf
    rw [List.map_id] at hsplit
    rw [hcells, List.flatMap_cons, linksOf, hlinks, Option.getD_some, List.flatMap_assoc]
    exact (hperm.trans hsplit.symm).cons i

/-- The nodes under a link have trees. -/
theorem tree?_of_mem_cells (h : a.tree? i = some node) {j : Nat} (hj : j ∈ a.cells i) :
    ∃ n, a.tree? j = some n := by
  induction i using Nat.strongRecOn generalizing node with
  | ind i ih =>
    obtain ⟨links, hlinks, hcells⟩ := cells_of_tree? h
    obtain ⟨links', hlinks', hdown⟩ := links?_of_tree? h
    obtain rfl : links = links' := Option.some.inj (hlinks.symm.trans hlinks')
    rw [hcells, List.mem_cons, List.mem_flatMap] at hj
    rcases hj with rfl | ⟨k, hk, hj⟩
    · exact ⟨node, h⟩
    · obtain ⟨hlt, n, hn⟩ := hdown k hk
      exact ih k hlt hn hj

end Arena

namespace Layout

variable {layout : Layout} {program : Program}

/-- What the links of the program or of a node lead to. -/
def linksOf (layout : Layout) (source : Option Nat) : List Nat := (layout.links? source).getD []

/-- Counted with the links to them, the nodes of a program are there once. -/
theorem Stores.nodes (h : layout.Stores program) : ∃ nodes : List Nat,
    (∀ i ∈ nodes, ∃ n, layout.arena.tree? i = some n) ∧
      ((none :: nodes.map some).flatMap layout.linksOf).Perm nodes ∧ nodes.Nodup := by
  obtain ⟨-, links, hlinks, htrees, hcells⟩ := h
  have hbody : layout.linksOf none = links := by rw [linksOf, links?, hlinks, Option.getD_some]
  refine ⟨links.flatMap layout.arena.cells, fun i hi => ?_, ?_, ?_⟩
  · obtain ⟨j, hj, hi⟩ := List.mem_flatMap.1 hi
    obtain ⟨n, hn⟩ := exists_of_mapM htrees hj
    exact Arena.tree?_of_mem_cells hn hi
  · have hperm : (links.flatMap layout.arena.cells).Perm
        (links.flatMap fun j => j :: (layout.arena.cells j).flatMap layout.arena.linksOf) := by
      refine List.Perm.flatMap_left links fun j hj => ?_
      obtain ⟨n, hn⟩ := exists_of_mapM htrees hj
      exact Arena.cells_perm hn
    have hsplit := List.map_append_flatMap_perm links id fun j =>
      (layout.arena.cells j).flatMap layout.arena.linksOf
    rw [List.map_id] at hsplit
    rw [List.flatMap_cons, hbody, List.flatMap_map, List.flatMap_assoc]
    exact hsplit.trans hperm.symm
  · exact Multiset.coe_nodup.1 (Multiset.nodup_of_le hcells (Multiset.nodup_range _))

theorem Reaches.mem {nodes : List Nat} {j : Nat} (hj : layout.Reaches j)
    (hperm : ((none :: nodes.map some).flatMap layout.linksOf).Perm nodes) : j ∈ nodes := by
  have hmem : ∀ {source links j}, source ∈ none :: nodes.map some →
      layout.links? source = some links → j ∈ links → j ∈ nodes := by
    intro source links j hsource hlinks hj
    refine hperm.mem_iff.1 (List.mem_flatMap.2 ⟨source, hsource, ?_⟩)
    rwa [linksOf, hlinks, Option.getD_some]
  induction hj with
  | body hlinks hj => exact hmem List.mem_cons_self hlinks hj
  | child _ hlinks hj ih => exact hmem (by simpa using ih) hlinks hj

theorem Reaches.linksTo {j : Nat} (hj : layout.Reaches j) :
    ∃ p : Option Nat × Nat, layout.LinksTo p.1 p.2 j := by
  cases hj with
  | body hlinks hj =>
    obtain ⟨position, hposition⟩ := List.getElem?_of_mem hj
    exact ⟨(none, position), by simp, _, hlinks, hposition⟩
  | @child i _ _ hi hlinks hj =>
    obtain ⟨position, hposition⟩ := List.getElem?_of_mem hj
    exact ⟨(some i, position), by simpa using hi, _, hlinks, hposition⟩

theorem Stores.strict (h : layout.Stores program) : layout.Strict := by
  obtain ⟨nodes, htree, hperm, hnodup⟩ := h.nodes
  have hflat := hperm.nodup_iff.2 hnodup
  refine ⟨h.2.imp fun links hlinks => hlinks.1, fun i hi => ?_, fun j hj => ?_⟩
  · obtain ⟨n, hn⟩ := htree i (hi.mem hperm)
    obtain ⟨links, hlinks, hdown⟩ := Arena.links?_of_tree? hn
    exact ⟨Arena.lt_length_of_tree? hn, links, hlinks, fun j hj => (hdown j hj).1⟩
  · have hsource : ∀ {source position}, layout.LinksTo source position j →
        source ∈ none :: nodes.map some ∧ (layout.linksOf source)[position]? = some j := by
      rintro source position ⟨hreach, links, hlinks, hposition⟩
      refine ⟨?_, by rwa [linksOf, hlinks, Option.getD_some]⟩
      cases source with
      | none => exact List.mem_cons_self
      | some i => simpa using (hreach i rfl).mem hperm
    refine existsUnique_of_exists_of_unique hj.linksTo ?_
    rintro ⟨source, position⟩ ⟨source', position'⟩ hp hp'
    obtain ⟨hmem, hget⟩ := hsource hp
    obtain ⟨hmem', hget'⟩ := hsource hp'
    obtain rfl : source = source' := eq_of_nodup_flatMap hflat hmem hmem'
      (List.mem_of_getElem? hget) (List.mem_of_getElem? hget')
    have hnodup' := (List.nodup_flatMap.1 hflat).1 source hmem
    obtain rfl : position = position' :=
      (List.getElem?_inj (List.getElem?_eq_some_iff.1 hget).1 hnodup').1 (hget.trans hget'.symm)
    rfl

theorem Stores.program? (h : layout.Stores program) : layout.program? = some program := by
  obtain ⟨body, shape⟩ := program
  obtain ⟨rfl, links, hlinks, htrees, -⟩ := h
  rw [Layout.program?, hlinks, Option.bind_eq_bind, Option.bind_some, htrees]
  rfl

end Layout

/-- Fewer than 2³⁰ tokens make a strict layout of the program, or stop with the program's fault. -/
theorem build_strict (tokens : List Token) (htokens : tokens.length < 2 ^ 30) :
    (∃ layout program, build tokens = .ok layout ∧ Program.ofTokens tokens = .ok program ∧
      layout.program? = some program ∧ layout.Strict) ∨
      ∃ e, build tokens = .error (.fault e) ∧ Program.ofTokens tokens = .error e := by
  have hrefines := build_refines htokens
  generalize build tokens = flat at hrefines ⊢
  generalize Program.ofTokens tokens = result at hrefines ⊢
  cases hrefines with
  | @ok layout program hstores =>
    exact .inl ⟨layout, program, rfl, rfl, hstores.program?, hstores.strict⟩
  | fault e => exact .inr ⟨e, rfl, rfl⟩

/-- A definition inside an expression, with a default, and a call of a call in its body, without an
end token: `x = 1 + def (y = -2) { f(y)(x) }`. -/
theorem build_strict_nested : ∃ layout program,
    build ([.word "x", .word "=", .int 1, .word "+", .word "def", .word "(", .word "y", .word "=",
      .word "-", .int 2, .word ")", .word "\x7b", .word "f", .word "(", .word "y", .word ")",
      .word "(", .word "x", .word ")", .word "\x7d"].map fun kind => ⟨kind, default⟩) = .ok layout ∧
    layout.program? = some program ∧ layout.Strict := by
  refine (build_strict _ (by decide)).elim
    (fun ⟨layout, program, hlayout, _, hprogram, hstrict⟩ =>
      ⟨layout, program, hlayout, hprogram, hstrict⟩) ?_
  rintro ⟨e, -, he⟩
  have hfails := (congrArg Except.isOk he).trans (rfl : _ = false)
  exact absurd hfails (by decide +kernel)

end SlotScript.Flat
