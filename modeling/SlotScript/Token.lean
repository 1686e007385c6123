import SlotScript.Span
import SlotScript.Text.Quoted
import SlotScript.Decimal.Written

/-!
# Tokens

The pieces of a source text that reach the tree builder. Names, reserved words, brackets and
operators are all words; numbers and texts carry their value. A double is kept as its 64 bits,
so that tokens can be compared.
-/

namespace SlotScript

/-- What a token is. -/
inductive TokenKind where
  /-- A name, a reserved word or a symbol. -/
  | word (text : String)
  /-- A whole number. -/
  | int (value : Int64)
  /-- A double, by its bits. -/
  | float (bits : UInt64)
  /-- A string literal, by the text it stands for. -/
  | literal (text : String)
  /-- The `;` that ends a statement. -/
  | separator
  /-- The end of the source. -/
  | eof
deriving DecidableEq, Repr, Inhabited

/-- A token and where it stands. -/
structure Token where
  /-- What the token is. -/
  kind : TokenKind
  /-- Where it stands. -/
  span : Span
deriving DecidableEq, Repr, Inhabited

namespace TokenKind

/-- The text of a word. -/
def word? : TokenKind → Option String
  | word text => some text
  | _ => none

/-- The token as listings show it. -/
def describe : TokenKind → String
  | word text => text
  | int value => toString value.toInt
  | float bits => Decimal.exact bits
  | literal text => Text.quote text
  | separator => ";"
  | eof => "<eof>"

end TokenKind

end SlotScript
