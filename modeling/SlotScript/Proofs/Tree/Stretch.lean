import SlotScript.Proofs.Tree.Everywhere
import SlotScript.Proofs.Tree.Fold
import SlotScript.Proofs.Tree.Steps

/-!
# Stretches of source

A token, a node or a parameter takes a *stretch* of the source. While a program is read, what has been
built of it and what has not stand in a `Row`: one stretch behind the other, each of them nested in
itself. `Node.SpansNest` says what nested means for a single node.

Whatever the builder does to a row, it joins stretches that stand next to each other or drops some of
them. So everything that folds, welds or closes is stated as `Merges old new`: wherever the old
stretches stand in a row, so do the new ones. The bounds of the row are the reason that the span of a
new node holds what is below it, also where the span was put together from the ends alone.
-/

namespace SlotScript

/-- The span holds the other one. -/
structure Span.Covers (outer inner : Span) : Prop where
  start : outer.start ≤ inner.start
  stop : inner.stop ≤ outer.stop

theorem Span.merge_eq_left {outer inner : Span} (h : outer.Covers inner) :
    outer.merge inner = outer := by
  rw [Span.merge, Nat.min_eq_left h.start, Nat.max_eq_left h.stop]

/-- A stretch of source, and the node that stands in it if there is one. -/
structure Stretch where
  /-- Where it starts and stops. -/
  span : Span
  /-- The node in it. -/
  inside : Option Node := none

/-- The stretch of a node. -/
def Node.stretch (node : Node) : Stretch := ⟨node.span, some node⟩

@[simp] theorem Node.span_stretch (node : Node) : node.stretch.span = node.span := rfl

@[simp] theorem Node.inside_stretch (node : Node) : node.stretch.inside = some node := rfl

/-- The stretch of a parameter: what stands in it is its default. -/
def Param.stretch (param : Param) : Stretch := ⟨param.span, param.default⟩

/-- What stands right below a node, parameters included, from left to right. -/
def Node.children : Node → List Stretch
  | .unary _ operand _ => [operand.stretch]
  | .binary _ left right _ => [left.stretch, right.stretch]
  | .assign _ _ _ _ value _ => [value.stretch]
  | .branch cond yes no _ _ _ => cond.stretch :: yes.stretch :: no.toList.map Node.stretch
  | .whileLoop cond body _ _ _ => [cond.stretch, body.stretch]
  | .forLoop init cond step body _ _ _ =>
    (init.toList ++ cond.toList ++ step.toList).map Node.stretch ++ [body.stretch]
  | .define _ _ params body _ _ => params.map Param.stretch ++ [body.stretch]
  | .call callee args _ => callee.stretch :: args.map Node.stretch
  | .block body _ => body.map Node.stretch
  | .ret value _ => value.toList.map Node.stretch
  | _ => []

/-- The spans of a node and of what stands right below it are nested like the tree. -/
structure Node.SpansNest (node : Node) : Prop where
  ordered : node.span.start ≤ node.span.stop
  /-- The node holds what stands below it, and a parameter holds its default. -/
  covers : ∀ child ∈ node.children, node.span.Covers child.span ∧
    ∀ sub ∈ child.inside, child.span.Covers sub.span
  /-- What stands below the node stands one behind the other. -/
  apart : node.children.Pairwise fun a b => a.span.stop ≤ b.span.start

/-- The stretch is in order, and the node in it is nested and does not stick out. -/
structure Stretch.Sound (stretch : Stretch) : Prop where
  ordered : stretch.span.start ≤ stretch.span.stop
  covers : ∀ node ∈ stretch.inside, stretch.span.Covers node.span
  nested : ∀ node ∈ stretch.inside, node.Everywhere Node.SpansNest

theorem Node.sound_stretch {node : Node} (h : node.Everywhere Node.SpansNest) :
    node.stretch.Sound := by
  obtain ⟨hspans, -⟩ := Node.everywhere_iff.mp h
  refine ⟨hspans.ordered, ?_, ?_⟩
  · rintro _ ⟨⟩
    exact ⟨Nat.le_refl _, Nat.le_refl _⟩
  · rintro _ ⟨⟩
    exact h

/-- The stretches stand one behind the other, from one place of the source to another. -/
def Row : Nat → List Stretch → Nat → Prop
  | low, [], high => low ≤ high
  | low, stretch :: rest, high =>
    low ≤ stretch.span.start ∧ stretch.Sound ∧ Row stretch.span.stop rest high

variable {low high : Nat}

/-! ## Rows -/

namespace Row

theorem le {row : List Stretch} (h : Row low row high) : low ≤ high := by
  induction row generalizing low with
  | nil => exact h
  | cons stretch rest ih =>
    obtain ⟨hlow, hsound, hrest⟩ := h
    exact Nat.le_trans (Nat.le_trans hlow hsound.ordered) (ih hrest)

theorem append_iff {row rest : List Stretch} :
    Row low (row ++ rest) high ↔ ∃ mid, Row low row mid ∧ Row mid rest high := by
  induction row generalizing low with
  | nil =>
    constructor
    · intro h
      exact ⟨low, Nat.le_refl low, h⟩
    · rintro ⟨mid, hle, h⟩
      cases rest with
      | nil => exact Nat.le_trans hle h
      | cons stretch rest => exact ⟨Nat.le_trans hle h.1, h.2⟩
  | cons stretch row ih =>
    simp only [List.cons_append, Row, ih]
    constructor
    · rintro ⟨hlow, hsound, mid, hrow, hrest⟩
      exact ⟨mid, ⟨hlow, hsound, hrow⟩, hrest⟩
    · rintro ⟨mid, ⟨hlow, hsound, hrow⟩, hrest⟩
      exact ⟨hlow, hsound, mid, hrow, hrest⟩

/-- A row can be seen between places further apart. -/
theorem mono {row : List Stretch} {low' high' : Nat} (h : Row low row high) (hlow : low' ≤ low)
    (hhigh : high ≤ high') : Row low' row high' := by
  have hbehind : Row low (row ++ []) high' := append_iff.mpr ⟨high, h, hhigh⟩
  have hall : Row low' ([] ++ (row ++ [])) high' := append_iff.mpr ⟨low, hlow, hbehind⟩
  simpa using hall

theorem of_sublist {row rest : List Stretch} (h : Row low row high) (hsub : rest.Sublist row) :
    Row low rest high := by
  induction hsub generalizing low with
  | slnil => exact h
  | cons stretch _ ih =>
    obtain ⟨hlow, hsound, hrest⟩ := h
    exact (ih hrest).mono (Nat.le_trans hlow hsound.ordered) (Nat.le_refl high)
  | cons_cons stretch _ ih =>
    obtain ⟨hlow, hsound, hrest⟩ := h
    exact ⟨hlow, hsound, ih hrest⟩

theorem covers {row : List Stretch} (h : Row low row high) :
    ∀ stretch ∈ row, Span.Covers ⟨low, high⟩ stretch.span ∧ stretch.Sound := by
  intro stretch hmem
  obtain ⟨before, after, rfl⟩ := List.append_of_mem hmem
  obtain ⟨mid, hbefore, hstart, hsound, hafter⟩ := append_iff.mp h
  exact ⟨⟨Nat.le_trans hbefore.le hstart, hafter.le⟩, hsound⟩

theorem apart {row : List Stretch} (h : Row low row high) :
    row.Pairwise fun a b => a.span.stop ≤ b.span.start := by
  induction row generalizing low with
  | nil => exact .nil
  | cons stretch rest ih =>
    obtain ⟨-, -, hrest⟩ := h
    exact .cons (fun other hother => (hrest.covers other hother).1.start) (ih hrest)

/-- The span over both ends of a row is where the row stands. -/
theorem ends {first last : Stretch} {middle : List Stretch}
    (h : Row low (first :: (middle ++ [last])) high) :
    first.span.merge last.span = ⟨first.span.start, last.span.stop⟩ ∧ low ≤ first.span.start ∧
      Row first.span.start (first :: (middle ++ [last])) last.span.stop ∧
      last.span.stop ≤ high := by
  obtain ⟨hlow, hfirst, hbehind⟩ := h
  obtain ⟨mid, hmiddle, hmid, hlast, hhigh⟩ := append_iff.mp hbehind
  refine ⟨?_, hlow, ⟨Nat.le_refl _, hfirst, ?_⟩, hhigh⟩
  · have hfirst := hfirst.ordered
    have hmiddle := hmiddle.le
    have hlast := hlast.ordered
    rw [Span.merge, Nat.min_eq_left (by omega), Nat.max_eq_right (by omega)]
  · exact append_iff.mpr ⟨mid, hmiddle, hmid, hlast, Nat.le_refl _⟩

end Row

/-- The nodes in the stretches right below a node are the nodes right below it. -/
theorem Node.mem_parts_iff {node sub : Node} :
    sub ∈ node.parts.map Prod.snd ↔ ∃ child ∈ node.children, sub ∈ child.inside := by
  cases node with
  | forLoop init cond step body header bodyShape span =>
    cases init <;> cases cond <;> cases step <;>
      simp [parts, children, stretch, eq_comm, or_comm, or_left_comm]
  | _ => simp [parts, children, stretch, Param.stretch, Param.defaults, eq_comm, or_comm]

/-- A node is nested if what stands right below it stands in a row within its span. -/
theorem Row.nested {node : Node} (h : Row node.span.start node.children node.span.stop) :
    node.Everywhere Node.SpansNest := by
  refine Node.everywhere_iff.mpr ⟨⟨h.le, fun child hchild => ?_, h.apart⟩, fun sub hsub => ?_⟩
  · obtain ⟨hcovers, hsound⟩ := h.covers child hchild
    exact ⟨hcovers, hsound.covers⟩
  · obtain ⟨child, hchild, hinside⟩ := Node.mem_parts_iff.mp hsub
    exact (h.covers child hchild).2.nested sub hinside

/-! ## Stretches that are joined -/

/-- Wherever the old stretches stand in a row, so do the new ones. -/
def Merges (old new : List Stretch) : Prop :=
  ∀ low high, Row low old high → Row low new high

namespace Merges

variable {old new next rest rest' : List Stretch}

theorem refl (row : List Stretch) : Merges row row := fun _ _ h => h

theorem trans (h : Merges old new) (h' : Merges new next) : Merges old next :=
  fun low high hrow => h' low high (h low high hrow)

theorem of_sublist (h : new.Sublist old) : Merges old new := fun _ _ hrow => hrow.of_sublist h

theorem append (h : Merges old new) (h' : Merges rest rest') :
    Merges (old ++ rest) (new ++ rest') := by
  intro low high hrow
  obtain ⟨mid, hold, hrest⟩ := Row.append_iff.mp hrow
  exact Row.append_iff.mpr ⟨mid, h low mid hold, h' mid high hrest⟩

/-- What stands before may stay as it is. -/
theorem behind (h : Merges old new) (before : List Stretch) :
    Merges (before ++ old) (before ++ new) :=
  (refl before).append h

/-- What stands behind may stay as it is. -/
theorem before (h : Merges old new) (behind : List Stretch) :
    Merges (old ++ behind) (new ++ behind) :=
  h.append (refl behind)

/-- What stands behind may be dropped. -/
theorem drop (h : Merges old new) (behind : List Stretch) : Merges (old ++ behind) new :=
  (of_sublist (List.sublist_append_left old behind)).trans h

/-- Only what stands in a stretch changes. -/
theorem of_sound {span : Span} {inside inside' : Option Node}
    (h : Stretch.Sound ⟨span, inside⟩ → Stretch.Sound ⟨span, inside'⟩) :
    Merges [⟨span, inside⟩] [⟨span, inside'⟩] :=
  fun _ _ ⟨hlow, hsound, hhigh⟩ => ⟨hlow, h hsound, hhigh⟩

/-- A stretch may be left for the node in it. -/
theorem inside (span : Span) (node : Node) : Merges [⟨span, some node⟩] [node.stretch] := by
  intro low high ⟨hlow, hsound, hhigh⟩
  obtain ⟨hstart, hstop⟩ := hsound.covers node rfl
  exact ⟨Nat.le_trans hlow hstart, Node.sound_stretch (hsound.nested node rfl),
    Nat.le_trans hstop hhigh⟩

/-- Stretches become a node that takes the place from the first to the last of them. -/
theorem node {node : Node} (hchildren : Merges old node.children)
    (hspan : ∀ low high, Row low old high →
      low ≤ node.span.start ∧ Row node.span.start old node.span.stop ∧ node.span.stop ≤ high) :
    Merges old [node.stretch] := by
  intro low high hrow
  obtain ⟨hlow, hwithin, hhigh⟩ := hspan low high hrow
  have hnested := (hchildren _ _ hwithin).nested
  exact ⟨hlow, Node.sound_stretch hnested, hhigh⟩

/-- A single token becomes a node. -/
theorem fill (node : Node) (hchildren : Merges [⟨node.span, none⟩] node.children) :
    Merges [⟨node.span, none⟩] [node.stretch] := by
  refine .node hchildren fun low high ⟨hlow, hsound, hhigh⟩ => ⟨hlow, ?_, hhigh⟩
  exact ⟨Nat.le_refl _, hsound, Nat.le_refl _⟩

/-- Two stretches become one, which keeps the node in the first. -/
theorem join (first last : Stretch) :
    Merges [first, last] [⟨first.span.merge last.span, first.inside⟩] := by
  intro low high hrow
  have hrow : Row low (first :: ([] ++ [last])) high := hrow
  obtain ⟨hmerge, hlow, hwithin, hhigh⟩ := hrow.ends
  rw [hmerge]
  obtain ⟨hcovers, hsound⟩ := hwithin.covers first List.mem_cons_self
  refine ⟨hlow, ⟨hwithin.le, fun node hnode => ?_, hsound.nested⟩, hhigh⟩
  obtain ⟨hstart, hstop⟩ := hsound.covers node hnode
  exact ⟨hstart, Nat.le_trans hstop hcovers.stop⟩

/-- Stretches become a node whose span is put together from both ends. -/
theorem enclose {node : Node} (first : Stretch) (middle : List Stretch) (last : Stretch)
    (hspan : node.span = first.span.merge last.span)
    (hchildren : Merges (first :: (middle ++ [last])) node.children) :
    Merges (first :: (middle ++ [last])) [node.stretch] := by
  refine .node hchildren fun low high hrow => ?_
  obtain ⟨hmerge, hends⟩ := hrow.ends
  rw [hspan, hmerge]
  exact hends

/-- A keyword, or an operator before its operand, becomes a node with what stands behind it. -/
theorem headed {node body : Node} {span : Span} (middle : List Stretch)
    (hspan : node.span = span.merge body.span)
    (hchildren : node.children = middle ++ [body.stretch]) :
    Merges (⟨span, none⟩ :: (middle ++ [body.stretch])) [node.stretch] := by
  refine enclose ⟨span, none⟩ middle body.stretch hspan (.of_sublist ?_)
  rw [hchildren]
  exact List.sublist_cons_self _ _

/-- An operator and its operands become a node, whose span also counts the operator. -/
theorem between {node : Node} (left right : Node) {span : Span}
    (hspan : node.span = (left.span.merge right.span).merge span)
    (hchildren : node.children.Sublist [left.stretch, ⟨span, none⟩, right.stretch]) :
    Merges [left.stretch, ⟨span, none⟩, right.stretch] [node.stretch] := by
  refine .node (.of_sublist hchildren) fun low high hrow => ?_
  have hrow : Row low (left.stretch :: ([⟨span, none⟩] ++ [right.stretch])) high := hrow
  have hmerge : left.span.merge right.span = ⟨left.span.start, right.span.stop⟩ := hrow.ends.1
  have hwithin := hrow.ends.2.2.1
  have hcovers := (hwithin.covers ⟨span, none⟩ (by simp)).1
  have hnode : node.span = ⟨left.span.start, right.span.stop⟩ := by
    rw [hspan, hmerge]
    exact Span.merge_eq_left hcovers
  rw [hnode]
  exact hrow.ends.2

end Merges

end SlotScript
