/-!
# Words

Names, reserved words and symbols all reach the tree builder as words. This module says which
words are reserved and which can name a variable.
-/

namespace SlotScript

/-- The words that cannot name a variable, in the order in which a new name table lists them. -/
def reservedWords : List String :=
  ["class", "function", "def", "if", "else", "new", "extends", "return", "break", "continue",
   "true", "false", "null", "operator", "while", "for", "import", "throw", "try", "catch",
   "finally", "abstract", "const", "var", "let"]

/-- Whether a word is reserved. -/
def isReserved (word : String) : Bool := reservedWords.contains word

/-- A letter of the ASCII alphabet, or an underscore. -/
def startsName (c : Char) : Bool := c.isAlpha || c == '_'

/-- A character that may follow the first one of a name. -/
def continuesName (c : Char) : Bool := startsName c || c.isDigit

/-- Whether a word can name a variable: it starts like a name and is not reserved. -/
def isIdentifier (word : String) : Bool :=
  (word.toList.head?.any startsName) && !isReserved word

end SlotScript
