import SlotScript.Word

/-!
# Lexemes

How the characters of a source text fall into pieces. `munch` looks at the first character and
at what follows it, and tells the kind of the piece that starts there and how many further
characters belong to it. It always takes the longest piece: a number with a fraction before one
without, a symbol of three characters before one of two, a closed string before an open one.
-/

namespace SlotScript

/-- The kinds of pieces that a source text falls into. -/
inductive Lexeme where
  /-- Characters between tokens. -/
  | blank
  /-- A comment with its end. -/
  | comment
  /-- A block comment that the source ends in. -/
  | openComment
  /-- The `;` between statements. -/
  | separator
  /-- Digits. -/
  | integer
  /-- Digits with a fraction. -/
  | decimal
  /-- A string literal with both quotes. -/
  | string
  /-- A string literal up to where it cannot go on without its closing quote. -/
  | openString
  /-- A name or a reserved word. -/
  | name
  /-- A bracket, an operator or another mark. -/
  | symbol
  /-- A character that starts no token. -/
  | unknown
deriving DecidableEq, Repr

namespace Lexeme

/-- The characters that only separate tokens. -/
def isSpace (c : Char) : Bool :=
  c == ' ' || c == '\t' || c == '\r' || c == '\n' || c == '\x0c'

/-- The marks that are tokens, longer ones first: of those that a text starts with, the first is
the longest. -/
def symbols : List String :=
  ["===", "!==", "<<=", ">>=",
   "<=", ">=", "==", "!=", "&&", "||", "<<", ">>", "+=", "-=", "*=", "/=", "%=", "&=", "^=",
   "|=",
   "\x7b", "\x7d", "(", ")", "[", "]", ".", ",", "=", "@", ":", "+", "-", "*", "/", "%", "<",
   ">", "&", "|", "^", "!"]

/-- How many characters a block comment takes after its opening, its end included. -/
def commentLength : List Char → Option Nat
  | '*' :: '/' :: _ => some 2
  | _ :: rest => (commentLength rest).map (· + 1)
  | [] => none

/-- How many characters a string literal takes after its opening `quote`, and whether the last of
them closes it. A line feed ends the literal before its closing quote, and so does a backslash
with no character of the same line after it. -/
def stringLength (quote : Char) : List Char → Nat × Bool
  | [] => (0, false)
  | '\\' :: [] => (0, false)
  | '\\' :: c :: rest =>
    if c == '\n' then (0, false)
    else
      let (length, closed) := stringLength quote rest
      (length + 2, closed)
  | c :: rest =>
    if c == quote then (1, true)
    else if c == '\n' then (0, false)
    else
      let (length, closed) := stringLength quote rest
      (length + 1, closed)

/-- How many digits a text starts with. -/
def digitCount (text : List Char) : Nat := (text.takeWhile Char.isDigit).length

/-- The length of a fraction, its point included, if the text starts with one. -/
def fractionLength : List Char → Option Nat
  | '.' :: rest => if digitCount rest = 0 then none else some (digitCount rest + 1)
  | _ => none

/-- The kind of the piece that starts with `c`, and how many characters of `rest` belong to it. -/
def munch (c : Char) (rest : List Char) : Lexeme × Nat :=
  if isSpace c then (.blank, (rest.takeWhile isSpace).length)
  else if c == '/' && rest.head? == some '/' then
    (.comment, (rest.takeWhile (· ≠ '\n')).length)
  else if c == '/' && rest.head? == some '*' then
    match commentLength rest.tail with
    | some length => (.comment, length + 1)
    | none => (.openComment, rest.length)
  else if c == ';' then (.separator, 0)
  else if c.isDigit then
    let digits := digitCount rest
    match fractionLength (rest.drop digits) with
    | some length => (.decimal, digits + length)
    | none => (.integer, digits)
  else if c == '"' || c == '\x27' then
    match stringLength c rest with
    | (length, true) => (.string, length)
    | (length, false) => (.openString, length)
  else if startsName c then (.name, (rest.takeWhile continuesName).length)
  else
    match fractionLength (c :: rest) with
    | some length => (.decimal, length - 1)
    | none =>
      match symbols.find? fun mark => mark.toList.isPrefixOf (c :: rest) with
      | some mark => (.symbol, mark.length - 1)
      | none => (.unknown, 0)

end Lexeme

end SlotScript
