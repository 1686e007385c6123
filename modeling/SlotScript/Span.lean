/-!
# Positions in a source text

A source text is a list of characters, and a position in it is a byte offset into its UTF-8
form. A `Span` is a half-open range of such offsets. `Span.lineColumn` turns the start of a
span into the line and the column that a reader sees: lines are counted by line feeds, columns
by characters, both from one.
-/

namespace SlotScript

/-- The number of bytes of a text in UTF-8. -/
def byteSize : List Char → Nat
  | [] => 0
  | c :: rest => c.utf8Size + byteSize rest

/-- The part of a text that takes exactly `size` bytes at its start, if a character ends there. -/
def leading : (size : Nat) → List Char → Option (List Char)
  | 0, _ => some []
  | _ + 1, [] => none
  | size, c :: rest =>
    if c.utf8Size ≤ size then (leading (size - c.utf8Size) rest).map (c :: ·) else none

/-- A half-open range of byte offsets. -/
structure Span where
  /-- Offset of the first byte. -/
  start : Nat
  /-- Offset just past the last byte. -/
  stop : Nat
deriving DecidableEq, Repr, Inhabited

namespace Span

/-- The number of bytes in the range. -/
def size (s : Span) : Nat := s.stop - s.start

/-- Whether the range holds no byte. -/
def isEmpty (s : Span) : Bool := s.start == s.stop

/-- The least range that covers both. -/
def merge (a b : Span) : Span := ⟨min a.start b.start, max a.stop b.stop⟩

/-- The range as `start..stop`. -/
def text (s : Span) : String := toString s.start ++ ".." ++ toString s.stop

/-- Line and column, from one, of the end of a text. -/
def lineColumnAfter (before : List Char) : Nat × Nat :=
  (before.count '\n' + 1, (before.reverse.takeWhile (· ≠ '\n')).length + 1)

/-- Line and column of the start of the span in `source`. A start past the end counts as the
end, and so does one inside a character. -/
def lineColumn (s : Span) (source : List Char) : Nat × Nat :=
  lineColumnAfter ((leading (min s.start (byteSize source)) source).getD source)

end Span

end SlotScript
