import Mathlib.Order.MinMax
import SlotScript.Proofs.Token.Within
import SlotScript.Proofs.Tree.Shape

/-!
# Where trees stand

The builder makes new spans out of old ones in one way only: it takes the least span that covers two.
So it cannot tell spans from their images under a map that carries covers to covers, a `Motion`.

**Theorem (`Program.ofTokens_agree`).** If two motions do the same to the spans of all tokens, they do
the same to all spans of the program, or to those of the error.

**Theorem (`Program.ofTokens_within`).** If all tokens stand within a source text, so do all nodes of
the program, or the places of the error.

The second is read off the first. A span that starts and ends between characters is one that stays
where it is when both its ends go back to where a character ends (`Motion.back`). A span that
starts no later than it ends is one that, whatever the offset, starts at or before it or ends after
it; and to be one of these is kept by covers and by what is covered (`Motion.across`).
-/

namespace SlotScript

/-! ## Motions -/

/-- A map of spans that carries covers to covers. -/
structure Motion where
  /-- Where a span goes. -/
  map : Span → Span
  map_merge (a b : Span) : map (a.merge b) = (map a).merge (map b)
  map_origin : map ⟨0, 0⟩ = ⟨0, 0⟩

/-- A motion changes spans and nothing else. -/
def Motion.change (m : Motion) : Change :=
  { Change.bare with
    span := m.map
    literal := fun text place => .str text (m.map place)
    span_merge := m.map_merge
    span_origin := m.map_origin
    span_literal := fun _ _ => rfl }

theorem Program.ofTokens_motion (m : Motion) (tokens : List Token) :
    m.change.Follows (Program.change m.change) (Program.ofTokens tokens)
      (Program.ofTokens (tokens.map (Token.change m.change))) := by
  have h := Program.ofTokens_change m.change tokens fun _ _ _ _ _ => rfl
  rwa [show m.change.numbering = .counted from rfl, Program.ofTokensBy_counted] at h

/-- Two motions that do the same to the tokens do the same to what is built from them. -/
theorem Program.ofTokens_agree (m m' : Motion) {tokens : List Token}
    (h : ∀ token ∈ tokens, m.map token.span = m'.map token.span) :
    (∀ program, Program.ofTokens tokens = .ok program →
      program.change m.change = program.change m'.change) ∧
    ∀ e, Program.ofTokens tokens = .error e → e.change m.change = e.change m'.change := by
  have htokens : tokens.map (Token.change m.change) = tokens.map (Token.change m'.change) :=
    List.map_congr_left fun token htoken => congrArg (Token.mk token.kind) (h token htoken)
  have hm := Program.ofTokens_motion m tokens
  have hm' := Program.ofTokens_motion m' tokens
  rw [← htokens] at hm'
  constructor
  · intro program hprogram
    rw [hprogram] at hm hm'
    exact Except.ok.inj (hm.symm.trans hm')
  · intro e he
    rw [he] at hm hm'
    exact Except.error.inj ((hm fun _ _ => rfl).symm.trans (hm' fun _ _ => rfl))

/-- Motions that do the same to a program do the same to every node in it. -/
theorem Program.Occurs.agree {m m' : Motion} {program : Program} {chain : List Region} {node : Node}
    (h : program.Occurs chain node) (hprogram : program.change m.change = program.change m'.change) :
    node.change m.change = node.change m'.change := by
  induction h with
  | statement hnode =>
    exact List.map_inj_left.1 (congrArg Program.body hprogram) _ hnode
  | @part chain inner node sub _ hsub ih =>
    have hparts : (node.parts.map Prod.snd).map (Node.change m.change) =
        (node.parts.map Prod.snd).map (Node.change m'.change) := by
      by_cases hstr : ∃ text place, node = .str text place
      · obtain ⟨text, place, rfl⟩ := hstr
        rfl
      · have hstr : ∀ text place, node ≠ .str text place := fun text place heq =>
          hstr ⟨text, place, heq⟩
        rw [← Node.parts_change _ hstr, ← Node.parts_change _ hstr, ih]
    exact List.map_inj_left.1 hparts sub (List.mem_map_of_mem hsub)

/-! ## Back to the end of a character -/

/-- The last offset up to `size` at which a character of the text starts or ends. -/
def lastBoundary : List Char → (size : Nat) → Nat
  | [], _ => 0
  | c :: rest, size =>
    if c.utf8Size ≤ size then c.utf8Size + lastBoundary rest (size - c.utf8Size) else 0

theorem lastBoundary_mono (source : List Char) {a b : Nat} (h : a ≤ b) :
    lastBoundary source a ≤ lastBoundary source b := by
  induction source generalizing a b with
  | nil => exact Nat.le_refl 0
  | cons c rest ih =>
    rw [lastBoundary, lastBoundary]
    split
    · rw [if_pos (by omega)]
      exact Nat.add_le_add_left (ih (Nat.sub_le_sub_right h _)) _
    · exact Nat.zero_le _

theorem exists_lastBoundary (source : List Char) (size : Nat) :
    ∃ before after, source = before ++ after ∧ lastBoundary source size = byteSize before := by
  induction source generalizing size with
  | nil => exact ⟨[], [], rfl, rfl⟩
  | cons c rest ih =>
    rw [lastBoundary]
    split
    · obtain ⟨before, after, rfl, hsize⟩ := ih (size - c.utf8Size)
      exact ⟨c :: before, after, rfl, by rw [hsize, byteSize]⟩
    · exact ⟨[], c :: rest, rfl, rfl⟩

theorem lastBoundary_append (before after : List Char) :
    lastBoundary (before ++ after) (byteSize before) = byteSize before := by
  induction before with
  | nil =>
    cases after with
    | nil => rfl
    | cons c rest =>
      have hpos := c.utf8Size_pos
      rw [List.nil_append, lastBoundary, byteSize, if_neg (by omega)]
  | cons c rest ih =>
    rw [List.cons_append, byteSize, lastBoundary, if_pos (Nat.le_add_right _ _),
      Nat.add_sub_cancel_left, ih]

/-- What takes so many bytes at the start of a text is the start of the text. -/
theorem append_of_leading {size : Nat} {source before : List Char}
    (h : leading size source = some before) :
    size = byteSize before ∧ ∃ after, source = before ++ after := by
  fun_induction leading size source generalizing before with
  | case1 source =>
    cases h
    exact ⟨rfl, source, rfl⟩
  | case2 => cases h
  | case3 size c rest hsize hle ih =>
    obtain ⟨inner, hinner, rfl⟩ := Option.map_eq_some_iff.1 h
    obtain ⟨hbyte, after, rfl⟩ := ih hinner
    exact ⟨by rw [byteSize]; omega, after, rfl⟩
  | case4 => cases h

theorem lastBoundary_eq_iff {source : List Char} {size : Nat} :
    lastBoundary source size = size ↔ (leading size source).isSome = true := by
  constructor
  · intro h
    obtain ⟨before, after, rfl, hbefore⟩ := exists_lastBoundary source size
    rw [← h, hbefore, leading_append]
    rfl
  · intro h
    obtain ⟨before, hbefore⟩ := Option.isSome_iff_exists.1 h
    obtain ⟨rfl, after, rfl⟩ := append_of_leading hbefore
    exact lastBoundary_append before after

/-- Both ends go back to where a character ends. -/
def Motion.back (source : List Char) : Motion where
  map s := ⟨lastBoundary source s.start, lastBoundary source s.stop⟩
  map_merge a b := by
    have hmono : Monotone (lastBoundary source) := fun _ _ => lastBoundary_mono source
    simp only [Span.merge, hmono.map_min, hmono.map_max]
  map_origin := by
    have h := lastBoundary_append [] source
    simp only [List.nil_append, byteSize] at h
    simp only [h]

/-! ## Across an offset -/

/-- The span starts at or before the offset, or it ends after it. -/
def Span.Across (offset : Nat) (s : Span) : Prop := s.start ≤ offset ∨ offset < s.stop

instance (offset : Nat) (s : Span) : Decidable (s.Across offset) := inferInstanceAs (Decidable (_ ∨ _))

theorem Span.across_merge (offset : Nat) (a b : Span) :
    (a.merge b).Across offset ↔ a.Across offset ∨ b.Across offset := by
  simp only [Span.Across, Span.merge]
  omega

/-- Spans that reach across the offset go to one span, and all others to another that it covers. -/
def Motion.across (offset : Nat) : Motion where
  map s := if s.Across offset then ⟨0, 0⟩ else ⟨1, 0⟩
  map_merge a b := by
    simp only [Span.across_merge]
    by_cases ha : a.Across offset <;> by_cases hb : b.Across offset <;> simp [ha, hb, Span.merge]
  map_origin := if_pos (Or.inl (Nat.zero_le _))

/-- Every span goes to the same one. -/
def Motion.nowhere : Motion where
  map _ := ⟨0, 0⟩
  map_merge _ _ := rfl
  map_origin := rfl

/-- A motion that stays put. -/
def Motion.still : Motion where
  map := id
  map_merge _ _ := rfl
  map_origin := rfl

/-! ## Within the source -/

/-- A span is within a text if going back to where characters end leaves it where it is, and no
offset lies after its start and not before its end. -/
theorem Span.within_iff {source : List Char} {s : Span} :
    s.Within source ↔ (Motion.back source).map s = Motion.still.map s ∧
      ∀ offset, (Motion.across offset).map s = Motion.nowhere.map s := by
  have hacross : ∀ offset, (Motion.across offset).map s = Motion.nowhere.map s ↔ s.Across offset := by
    intro offset
    simp [Motion.across, Motion.nowhere]
  simp only [hacross]
  constructor
  · intro h
    refine ⟨?_, fun offset => ?_⟩
    · exact Span.mk.injEq .. ▸ ⟨lastBoundary_eq_iff.2 h.start, lastBoundary_eq_iff.2 h.stop⟩
    · have hordered := h.ordered
      unfold Span.Across
      omega
  · rintro ⟨hback, hall⟩
    obtain ⟨hstart, hstop⟩ := Span.mk.inj hback
    refine ⟨?_, ?_, lastBoundary_eq_iff.1 hstart, lastBoundary_eq_iff.1 hstop⟩
    · exact (hall s.stop).resolve_right (Nat.lt_irrefl _)
    · obtain ⟨before, after, rfl, hbefore⟩ := exists_lastBoundary source s.stop
      rw [← hstop, hbefore, byteSize_append]
      exact Nat.le_add_right _ _

theorem Program.ofTokens_within {source : List Char} {tokens : List Token}
    (h : ∀ token ∈ tokens, token.span.Within source) :
    (∀ program, Program.ofTokens tokens = .ok program →
      ∀ chain node, program.Occurs chain node → node.span.Within source) ∧
    ∀ e, Program.ofTokens tokens = .error e →
      e.span.Within source ∧ ∀ opening ∈ e.opened, opening.Within source := by
  have hback := Program.ofTokens_agree (.back source) .still fun token htoken =>
    (Span.within_iff.1 (h token htoken)).1
  have hacross := fun offset => Program.ofTokens_agree (.across offset) .nowhere
    fun token htoken => (Span.within_iff.1 (h token htoken)).2 offset
  constructor
  · intro program hprogram chain node hnode
    have hspan : ∀ {m m' : Motion}, program.change m.change = program.change m'.change →
        m.map node.span = m'.map node.span := by
      intro m m' hagree
      have hnode := congrArg Node.span (hnode.agree hagree)
      rwa [Node.span_change, Node.span_change] at hnode
    exact Span.within_iff.2 ⟨hspan (hback.1 program hprogram), fun offset =>
      hspan ((hacross offset).1 program hprogram)⟩
  · intro e he
    have hspan : e.span.Within source := Span.within_iff.2
      ⟨congrArg BuildError.span (hback.2 e he), fun offset =>
        congrArg BuildError.span ((hacross offset).2 e he)⟩
    refine ⟨hspan, fun opening hopening => ?_⟩
    have hopened : ∀ {m m' : Motion}, e.change m.change = e.change m'.change →
        m.map opening = m'.map opening := by
      intro m m' hagree
      have hopened := congrArg BuildError.opened hagree
      simp only [BuildError.change, Option.mem_def.1 hopening, Option.map_some] at hopened
      exact Option.some.inj hopened
    exact Span.within_iff.2 ⟨hopened (hback.2 e he), fun offset => hopened ((hacross offset).2 e he)⟩

end SlotScript
