import SlotScript.Proofs.Scope.Resolved
import SlotScript.Proofs.Scope.Spanned
import SlotScript.Proofs.Tree.Shape

/-!
# What holds everywhere in a tree

`Node.Everywhere P` says that a property holds of a node and of all nodes below it. It holds of a
program if it holds of everything that occurs in it. A property that places and shapes do not matter
to carries over from a program to the resolved one.
-/

namespace SlotScript

/-- The property holds of the node and of all nodes below it. -/
inductive Node.Everywhere (P : Node → Prop) : Node → Prop
  | intro {node : Node} : P node → (∀ part ∈ node.parts, Everywhere P part.2) → Everywhere P node

/-- The property holds of all nodes of the program. -/
def Program.Everywhere (P : Node → Prop) (program : Program) : Prop :=
  ∀ node ∈ program.body, node.Everywhere P

variable {P Q : Node → Prop}

namespace Node

theorem everywhere_iff {node : Node} :
    node.Everywhere P ↔ P node ∧ ∀ sub ∈ node.parts.map Prod.snd, sub.Everywhere P := by
  rw [List.forall_mem_map]
  constructor
  · rintro ⟨hnode, hparts⟩
    exact ⟨hnode, hparts⟩
  · rintro ⟨hnode, hparts⟩
    exact .intro hnode hparts

theorem Everywhere.and {node : Node} (h : node.Everywhere P) (h' : node.Everywhere Q) :
    node.Everywhere fun node => P node ∧ Q node := by
  induction h with
  | intro hnode _ ih =>
    obtain ⟨hnode', hparts'⟩ := h'
    exact .intro ⟨hnode, hnode'⟩ fun part hpart => ih part hpart (hparts' part hpart)

theorem Everywhere.unmarked (hP : ∀ node : Node, P node → P node.unmarked) {node : Node}
    (h : node.Everywhere P) : node.unmarked.Everywhere P := by
  induction h with
  | intro hnode _ ih =>
    rw [everywhere_iff, parts_unmarked, List.forall_mem_map, List.forall_mem_map]
    exact ⟨hP _ hnode, ih⟩

theorem Everywhere.of_unmarked (hP : ∀ node : Node, P node.unmarked → P node) {node : Node}
    (h : node.unmarked.Everywhere P) : node.Everywhere P := by
  obtain ⟨erased, herased⟩ : ∃ erased, erased = node.unmarked := ⟨_, rfl⟩
  rw [← herased] at h
  induction h generalizing node with
  | intro hnode _ ih =>
    subst herased
    refine .intro (hP node hnode) fun part hpart => ?_
    have hmem : part.2.unmarked ∈ node.unmarked.parts.map Prod.snd := by
      rw [parts_unmarked, List.map_map]
      exact List.mem_map_of_mem hpart
    obtain ⟨part', hpart', heq⟩ := List.mem_map.1 hmem
    exact ih part' hpart' heq

/-- What holds of all nodes that occur in a program holds everywhere below each of them. -/
theorem everywhere_of_occurs {program : Program}
    (h : ∀ chain node, program.Occurs chain node → P node) (chain : List Region) (node : Node)
    (hnode : program.Occurs chain node) : node.Everywhere P := by
  refine .intro (h chain node hnode) fun part hpart => ?_
  have hsize := sizeOf_part (List.mem_map_of_mem hpart)
  exact everywhere_of_occurs h (part.1 ++ chain) part.2 (.part hnode hpart)
termination_by sizeOf node

end Node

namespace Program

theorem everywhere_of_occurs {program : Program}
    (h : ∀ chain node, program.Occurs chain node → P node) : program.Everywhere P :=
  fun node hnode => Node.everywhere_of_occurs h _ node (.statement hnode)

/-- A property that places and shapes do not matter to holds everywhere in the resolved program if it
does in the program. -/
theorem Everywhere.resolve {program resolved : Program}
    (hP : ∀ node : Node, P node.unmarked ↔ P node) (h : program.Everywhere P)
    (hresolve : program.resolve = .ok resolved) : resolved.Everywhere P := by
  have hwalks := program.resolve_walks
  rw [hresolve] at hwalks
  obtain ⟨-, -, -, -, hunmarked⟩ := hwalks
  intro node hnode
  have hmem : node.unmarked ∈ resolved.unmarked.body := by
    simpa [Program.unmarked] using ⟨node, hnode, rfl⟩
  rw [hunmarked] at hmem
  obtain ⟨before, hbefore, heq⟩ : ∃ before ∈ program.body, before.unmarked = node.unmarked := by
    simpa [Program.unmarked] using hmem
  refine .of_unmarked (fun node => (hP node).mp) ?_
  rw [← heq]
  exact (h before hbefore).unmarked fun node => (hP node).mpr

end Program

/-! ## Places -/

/-- The place of the node's own name is known. -/
def Node.Placed : Node → Prop
  | .ident _ var _ | .assign _ var _ _ _ _ => var.place ≠ .unresolved
  | .define _ binding _ _ _ _ => ∀ var ∈ binding, var.place ≠ .unresolved
  | _ => True

theorem Place.Within.ne_unresolved {chain : List Region} {name : String} {place : Place}
    (h : place.Within chain name) : place ≠ .unresolved := by
  rintro rfl
  exact h

/-- In a resolved program all places are known. -/
theorem Program.resolve_placed {program resolved : Program}
    (h : program.resolve = .ok resolved) : resolved.Everywhere Node.Placed := by
  refine Program.everywhere_of_occurs fun chain node hnode => ?_
  have hsettled := hnode.settled h
  cases node with
  | ident | assign => exact Place.Within.ne_unresolved hsettled
  | define => exact fun var hvar => (hsettled.1 var hvar).ne_unresolved
  | _ => trivial

end SlotScript
