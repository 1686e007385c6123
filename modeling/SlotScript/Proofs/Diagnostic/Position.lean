import SlotScript.Proofs.Token.Within
import Mathlib.Data.List.Induction
import Mathlib.Data.Prod.Lex

/-!
# Lines and columns

A diagnostic names a place by its line and its column. They are counted in the text before the place: the
line by line feeds, the column by the characters after the last of them.

**Theorem (`Span.lineColumn_identifies`).** A line and a column name one place. It lies behind the lines
above, each with its line feed, and behind the characters that the line has before the column. Of two
places the one with the smaller line, or with the smaller column in the same line, comes first in the
source. No number is greater than the source has bytes, plus one.

The place of a line and a column is found in the whole source, cut at its line feeds (`OffsetAt`). An earlier
line ends, with its line feed, before a later one starts, so offsets are in the order of lines and columns
(`OffsetAt.lt`). All the rest follows from this and from the place of the counted line and column
(`offsetAt_lineColumn`).
-/

namespace SlotScript

/-- The offset stands before, between or behind the characters of the source. -/
def Boundary (source : List Char) (offset : Nat) : Prop :=
  ∃ before after, source = before ++ after ∧ offset = byteSize before

/-- The bytes that lines take, each with its line feed. -/
def linesSize : List (List Char) → Nat
  | [] => 0
  | line :: lines => byteSize line + 1 + linesSize lines

/-- The offset of a line and a column, both counted from one: it lies behind the lines above and behind
the characters that the line has before the column. -/
inductive OffsetAt (source : List Char) : Nat × Nat → Nat → Prop
  | intro {above below : List (List Char)} {front rest : List Char} :
      source.splitOn '\n' = above ++ (front ++ rest) :: below →
      OffsetAt source (above.length + 1, front.length + 1) (linesSize above + byteSize front)

/-! ## Bytes and characters -/

theorem length_le_byteSize (text : List Char) : text.length ≤ byteSize text := by
  induction text with
  | nil => exact Nat.le_refl 0
  | cons c text ih =>
    have hpos := c.utf8Size_pos
    rw [List.length_cons, byteSize]
    omega

theorem byteSize_pos {text : List Char} (h : text ≠ []) : 0 < byteSize text :=
  Nat.lt_of_lt_of_le (List.length_pos_iff.mpr h) (length_le_byteSize text)

theorem linesSize_append (a b : List (List Char)) :
    linesSize (a ++ b) = linesSize a + linesSize b := by
  induction a with
  | nil => simp [linesSize]
  | cons line a ih =>
    rw [List.cons_append, linesSize, linesSize, ih]
    omega

/-! ## The order of places -/

/-- A smaller line, or a smaller column in the same line, has a smaller offset. -/
theorem OffsetAt.lt {source : List Char} {p q : Nat × Nat} {m n : Nat} (hp : OffsetAt source p m)
    (hq : OffsetAt source q n) (h : toLex p < toLex q) : m < n := by
  obtain @⟨above, below, front, rest, hlines⟩ := hp
  obtain @⟨above', below', front', rest', hlines'⟩ := hq
  rcases Prod.Lex.toLex_lt_toLex.mp h with hline | ⟨hline, hfront⟩
  · -- the first place is in one of the lines above the second
    have hline : above.length < above'.length := Nat.lt_of_succ_lt_succ hline
    have hprefix : above ++ [front ++ rest] <+: above' := by
      have hfirst : above ++ [front ++ rest] <+: source.splitOn '\n' := ⟨below, by simp [hlines]⟩
      have hsecond : above' <+: source.splitOn '\n' := ⟨_, hlines'.symm⟩
      exact List.prefix_of_prefix_length_le hfirst hsecond (by simpa using Nat.succ_le_of_lt hline)
    obtain ⟨more, rfl⟩ := hprefix
    simp only [linesSize_append, linesSize, byteSize_append]
    omega
  · have hline : above.length = above'.length := Nat.succ.inj hline
    have hcolumn : front.length < front'.length := Nat.lt_of_succ_lt_succ hfront
    obtain ⟨rfl, hbelow⟩ := List.append_inj (hlines.symm.trans hlines') hline
    obtain ⟨hsame, -⟩ := List.cons.inj hbelow
    obtain ⟨piece, rfl⟩ : front <+: front' :=
      List.prefix_of_prefix_length_le ⟨rest, hsame⟩ ⟨rest', rfl⟩ (Nat.le_of_lt hcolumn)
    have hpiece : piece ≠ [] := by
      rintro rfl
      simp at hcolumn
    have hpos := byteSize_pos hpiece
    rw [byteSize_append]
    omega

/-- A line and a column have one offset. -/
theorem OffsetAt.unique {source : List Char} {p : Nat × Nat} {m n : Nat} (hm : OffsetAt source p m)
    (hn : OffsetAt source p n) : m = n := by
  generalize hq : p = q at hn
  obtain @⟨above, below, front, rest, hlines⟩ := hm
  obtain @⟨above', below', front', rest', hlines'⟩ := hn
  obtain ⟨hline, hcolumn⟩ := Prod.mk.inj hq
  obtain ⟨rfl, hbelow⟩ := List.append_inj (hlines.symm.trans hlines') (Nat.succ.inj hline)
  obtain ⟨rfl, -⟩ := List.append_inj (List.cons.inj hbelow).1 (Nat.succ.inj hcolumn)
  rfl

section

variable {source : List Char} {p q : Nat × Nat} {m n : Nat} (hp : OffsetAt source p m)
  (hq : OffsetAt source q n)

include hp hq

/-- Places come in the order of their lines and columns. -/
theorem OffsetAt.lt_iff : m < n ↔ toLex p < toLex q := by
  refine ⟨fun hoffset => ?_, hp.lt hq⟩
  rcases lt_trichotomy (toLex p) (toLex q) with h | h | h
  · exact h
  · obtain rfl : p = q := toLex_inj.mp h
    exact absurd (hp.unique hq) hoffset.ne
  · exact absurd (hq.lt hp h) hoffset.asymm

/-- A place has one line and one column. -/
theorem OffsetAt.eq_iff : p = q ↔ m = n := by
  constructor
  · rintro rfl
    exact hp.unique hq
  · rintro rfl
    rcases lt_trichotomy (toLex p) (toLex q) with h | h | h
    · exact absurd (hp.lt hq h) (Nat.lt_irrefl m)
    · exact toLex_inj.mp h
    · exact absurd (hq.lt hp h) (Nat.lt_irrefl m)

end

/-! ## Cutting a text into lines -/

theorem linesSize_modifyHead (c : Char) {lines : List (List Char)} (h : lines ≠ []) :
    linesSize (lines.modifyHead (c :: ·)) = c.utf8Size + linesSize lines := by
  obtain ⟨line, lines, rfl⟩ := List.exists_cons_of_ne_nil h
  simp only [List.modifyHead_cons, linesSize, byteSize]
  omega

/-- The lines of a text, each with its line feed, take one byte more than the text. -/
theorem linesSize_splitOn (text : List Char) : linesSize (text.splitOn '\n') = byteSize text + 1 := by
  induction text with
  | nil => rfl
  | cons c text ih =>
    rw [List.splitOn_cons_eq_if_modifyHead, byteSize]
    split
    · next hc =>
      obtain rfl : c = '\n' := by simpa using hc
      rw [linesSize, ih]
      rfl
    · rw [linesSize_modifyHead c (List.splitOn_ne_nil '\n' text), ih]
      omega

theorem length_splitOn (text : List Char) : (text.splitOn '\n').length = text.count '\n' + 1 := by
  induction text with
  | nil => rfl
  | cons c text ih =>
    rw [List.splitOn_cons_eq_if_modifyHead, List.count_cons]
    split <;> simp [ih]

/-- A text without a line feed is the start of the first line. -/
theorem splitOn_append {front rest line : List Char} {below : List (List Char)} (hfront : '\n' ∉ front)
    (hrest : rest.splitOn '\n' = line :: below) :
    (front ++ rest).splitOn '\n' = (front ++ line) :: below := by
  induction front with
  | nil => exact hrest
  | cons c front ih =>
    obtain ⟨hc, hfront⟩ : '\n' ≠ c ∧ '\n' ∉ front := by simpa [not_or] using hfront
    rw [List.cons_append, List.splitOn_cons_eq_if_modifyHead, ih hfront]
    simp [hc.symm]

/-- A text that ends with a line feed, and what follows it, are cut apart from each other. -/
theorem exists_lines_above {above : List Char} (hstarts : ∀ c ∈ above.getLast?, c = '\n') :
    ∃ lines, (∀ rest, (above ++ rest).splitOn '\n' = lines ++ rest.splitOn '\n') ∧
      lines.length = above.count '\n' ∧ linesSize lines = byteSize above := by
  rcases List.eq_nil_or_concat above with rfl | ⟨text, c, rfl⟩
  · exact ⟨[], fun rest => rfl, rfl, rfl⟩
  · obtain rfl : c = '\n' := hstarts c (by simp)
    refine ⟨text.splitOn '\n', fun rest => ?_, ?_, ?_⟩
    · rw [← List.splitOn_append_cons_self]
      simp
    · simp [length_splitOn]
    · rw [linesSize_splitOn, List.concat_eq_append, byteSize_append]
      rfl

/-! ## The position after a text -/

/-- Every text has a last line. -/
theorem exists_lastLine (text : List Char) :
    ∃ above front, text = above ++ front ∧ (∀ c ∈ above.getLast?, c = '\n') ∧ '\n' ∉ front := by
  induction text using List.reverseRecOn with
  | nil => exact ⟨[], [], rfl, nofun, by simp⟩
  | append_singleton text c ih =>
    by_cases hc : c = '\n'
    · exact ⟨text ++ [c], [], by simp, by simp [hc], by simp⟩
    · obtain ⟨above, front, rfl, hstarts, hfront⟩ := ih
      exact ⟨above, front ++ [c], by simp, hstarts, by simp [hfront, Ne.symm hc]⟩

namespace Span

/-- The position after the front of a line. -/
theorem lineColumnAfter_append {above front : List Char} (hstarts : ∀ c ∈ above.getLast?, c = '\n')
    (hfront : '\n' ∉ front) :
    lineColumnAfter (above ++ front) = (above.count '\n' + 1, front.length + 1) := by
  have hbefore : (above ++ front).reverse.takeWhile (· ≠ '\n') = front.reverse := by
    rw [List.reverse_append, List.takeWhile_append_of_pos]
    · rw [← List.head?_reverse] at hstarts
      cases hreverse : above.reverse with
      | nil => simp
      | cons c rest =>
        obtain rfl : c = '\n' := hstarts c (by rw [hreverse]; rfl)
        simp
    · intro c hc
      simpa using ne_of_mem_of_not_mem (List.mem_reverse.mp hc) hfront
  rw [lineColumnAfter, hbefore, List.length_reverse, List.count_append,
    List.count_eq_zero_of_not_mem hfront, Nat.add_zero]

/-- The position of a place is the position after the text before it. -/
theorem lineColumn_append (before after : List Char) (stop : Nat) :
    lineColumn ⟨byteSize before, stop⟩ (before ++ after) = lineColumnAfter before := by
  have hmin : min (byteSize before) (byteSize (before ++ after)) = byteSize before := by
    rw [byteSize_append]
    exact Nat.min_eq_left (Nat.le_add_right _ _)
  rw [lineColumn, hmin, leading_append, Option.getD_some]

/-- A text has no more line feeds, and no longer last line, than it has bytes. -/
theorem lineColumnAfter_le (before : List Char) :
    (lineColumnAfter before).1 ≤ byteSize before + 1 ∧
      (lineColumnAfter before).2 ≤ byteSize before + 1 := by
  have hlength := length_le_byteSize before
  have hcount := List.count_le_length (a := '\n') (l := before)
  have hcolumn := (List.takeWhile_prefix (· ≠ '\n') (l := before.reverse)).length_le
  rw [List.length_reverse] at hcolumn
  exact ⟨by simp only [lineColumnAfter]; omega, by simp only [lineColumnAfter]; omega⟩

end Span

/-- The counted line and column have the offset of the place. -/
theorem offsetAt_lineColumnAfter (before after : List Char) :
    OffsetAt (before ++ after) (Span.lineColumnAfter before) (byteSize before) := by
  obtain ⟨above, front, rfl, hstarts, hfront⟩ := exists_lastLine before
  obtain ⟨lines, hlines, hlength, hsize⟩ := exists_lines_above hstarts
  obtain ⟨line, below, hafter⟩ := List.exists_cons_of_ne_nil (List.splitOn_ne_nil '\n' after)
  have hcut : (above ++ front ++ after).splitOn '\n' = lines ++ (front ++ line) :: below := by
    rw [List.append_assoc, hlines, splitOn_append hfront hafter]
  rw [Span.lineColumnAfter_append hstarts hfront, byteSize_append, ← hlength, ← hsize]
  exact .intro hcut

/-- The line and the column of a place have its offset. -/
theorem offsetAt_lineColumn {source : List Char} {s : Span} (h : Boundary source s.start) :
    OffsetAt source (s.lineColumn source) s.start := by
  obtain ⟨start, stop⟩ := s
  obtain ⟨before, after, rfl, rfl⟩ := h
  rw [Span.lineColumn_append]
  exact offsetAt_lineColumnAfter before after

/-- No line and no column exceeds the number of bytes by more than one. -/
theorem Span.lineColumn_le {source : List Char} {s : Span} (h : Boundary source s.start) :
    (s.lineColumn source).1 ≤ byteSize source + 1 ∧ (s.lineColumn source).2 ≤ byteSize source + 1 := by
  obtain ⟨start, stop⟩ := s
  obtain ⟨before, after, rfl, rfl⟩ := h
  obtain ⟨hline, hcolumn⟩ := lineColumnAfter_le before
  rw [lineColumn_append, byteSize_append]
  omega

/-- **A line and a column name one place.** -/
theorem Span.lineColumn_identifies {source : List Char} (hsize : byteSize source + 1 < UInt32.size) :
    (∀ s : Span, Boundary source s.start →
      (∀ position, s.lineColumn source = position ↔ OffsetAt source position s.start) ∧
      (s.lineColumn source).1 < UInt32.size ∧ (s.lineColumn source).2 < UInt32.size) ∧
    ∀ a b : Span, Boundary source a.start → Boundary source b.start →
      (a.lineColumn source = b.lineColumn source ↔ a.start = b.start) ∧
      (toLex (a.lineColumn source) < toLex (b.lineColumn source) ↔ a.start < b.start) := by
  refine ⟨fun s hs => ⟨fun position => ⟨?_, ?_⟩, ?_, ?_⟩, fun a b ha hb => ⟨?_, ?_⟩⟩
  · rintro rfl
    exact offsetAt_lineColumn hs
  · exact fun hposition => ((offsetAt_lineColumn hs).eq_iff hposition).mpr rfl
  · exact (Span.lineColumn_le hs).1.trans_lt hsize
  · exact (Span.lineColumn_le hs).2.trans_lt hsize
  · exact (offsetAt_lineColumn ha).eq_iff (offsetAt_lineColumn hb)
  · exact ((offsetAt_lineColumn ha).lt_iff (offsetAt_lineColumn hb)).symm

/-- Behind a letter of two bytes and a carriage return stands the second line; the third has no characters. -/
theorem Span.lineColumn_identifies_letter :
    byteSize "é\r\nab\n".toList + 1 < UInt32.size ∧
    Boundary "é\r\nab\n".toList 5 ∧ Boundary "é\r\nab\n".toList 7 ∧
    OffsetAt "é\r\nab\n".toList (2, 2) 5 ∧ OffsetAt "é\r\nab\n".toList (3, 1) 7 ∧
    (toLex (Span.lineColumn ⟨5, 6⟩ "é\r\nab\n".toList) <
      toLex (Span.lineColumn ⟨7, 7⟩ "é\r\nab\n".toList) ↔ 5 < 7) := by
  have hsize : byteSize "é\r\nab\n".toList + 1 < UInt32.size := by decide
  have hinside : Boundary "é\r\nab\n".toList 5 := ⟨"é\r\na".toList, "b\n".toList, by decide, by decide⟩
  have hend : Boundary "é\r\nab\n".toList 7 := ⟨"é\r\nab\n".toList, [], by decide, by decide⟩
  obtain ⟨hplace, horder⟩ := Span.lineColumn_identifies hsize
  refine ⟨hsize, hinside, hend, ?_, ?_, (horder ⟨5, 6⟩ ⟨7, 7⟩ hinside hend).2⟩
  · exact ((hplace ⟨5, 6⟩ hinside).1 (2, 2)).mp (by decide)
  · exact ((hplace ⟨7, 7⟩ hend).1 (3, 1)).mp (by decide)

end SlotScript
