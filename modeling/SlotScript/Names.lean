import SlotScript.Word

/-!
# Numbered names

A table that numbers texts in the order in which they are first interned. It is kept both ways
round: a number indexes the texts, and a text has an entry with its number. The empty text has
number zero and the reserved words follow it.
-/

namespace SlotScript

/-- A table of numbered texts. -/
structure Names where
  /-- The texts by number. -/
  texts : Array String := #[]
  /-- The numbers by text, the latest entry of a text in front. -/
  numbers : List (String × Nat) := []

namespace Names

/-- The number of a text that is in the table. -/
def get? (names : Names) (text : String) : Option Nat := names.numbers.lookup text

/-- The text with a number; the empty text for a number that was never given out. -/
def lookup (names : Names) (number : Nat) : String := names.texts[number]?.getD ""

/-- How many texts the table holds. -/
def size (names : Names) : Nat := names.texts.size

/-- The table with the next number for `text`. -/
def push (names : Names) (text : String) : Names where
  texts := names.texts.push text
  numbers := (text, names.size) :: names.numbers

/-- The number of `text`, which enters the table if it was not there. A number has 32 bits, so
a full table takes no other text. -/
def intern? (names : Names) (text : String) : Option (Nat × Names) :=
  match names.get? text with
  | some number => some (number, names)
  | none => if names.size < UInt32.size then some (names.size, names.push text) else none

/-- As `intern?`, with the number of the empty text for one that a full table does not take. -/
def intern (names : Names) (text : String) : Nat × Names := (names.intern? text).getD (0, names)

/-- The texts that every table starts with. -/
def firstTexts : List String := "" :: reservedWords

/-- The table that holds the empty text and the reserved words. -/
def initial : Names := firstTexts.foldl (fun names text => (names.intern text).2) {}

end Names

end SlotScript
