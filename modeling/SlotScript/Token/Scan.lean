import SlotScript.Token
import SlotScript.Token.Lexeme
import SlotScript.Diagnostic

/-!
# From source text to tokens

`Token.scan` walks a source text piece by piece: blanks and comments are skipped, every other
piece becomes one token, and the first piece that is no token is an error. The tokens carry the
byte range of their piece, and an end token stands after the last.
-/

namespace SlotScript

/-- Why a source text has no tokens. -/
inductive ScanFault where
  /-- A character that starts no token. -/
  | unknownCharacter (c : Char)
  /-- A string literal without its closing quote. -/
  | unterminatedString
  /-- A whole number beyond 64 bits. -/
  | integerOutOfRange (digits : String)
  /-- An escape that string literals do not have. -/
  | unknownEscape (c : Char)
  /-- A block comment without its end. -/
  | unterminatedComment
deriving DecidableEq, Repr

/-- A fault and where it stands. -/
structure ScanError where
  /-- What is wrong. -/
  fault : ScanFault
  /-- Where. -/
  span : Span
deriving DecidableEq, Repr

namespace ScanFault

/-- The fault in one line. -/
def message : ScanFault → String
  | unknownCharacter c => "unknown character `" ++ String.singleton c ++ "`"
  | unterminatedString => "unterminated string literal"
  | integerOutOfRange digits => "integer literal `" ++ digits ++ "` is out of range"
  | unknownEscape c => "unknown escape sequence `\\" ++ String.singleton c ++ "`"
  | unterminatedComment => "unterminated block comment"

/-- The code of the fault. -/
def code : ScanFault → Code
  | unknownCharacter _ => .unknownCharacter
  | unterminatedString => .unterminatedString
  | integerOutOfRange _ => .integerOutOfRange
  | unknownEscape _ => .unknownEscape
  | unterminatedComment => .unterminatedComment

/-- What the label at the fault says. -/
def label : ScanFault → String
  | unterminatedString => "string starts here"
  | unterminatedComment => "comment starts here"
  | _ => "here"

end ScanFault

/-- The error as a diagnostic. -/
def ScanError.toDiagnostic (e : ScanError) : Diagnostic :=
  { code := e.fault.code
    message := e.fault.message
    labels := [⟨e.span, e.fault.label, true⟩] }

namespace Token

/-- The character that a backslash and `c` stand for. -/
def unescapeChar? (c : Char) : Option Char :=
  if c == 'n' then some '\n'
  else if c == 't' then some '\t'
  else if c == 'r' then some '\r'
  else if c == '0' then some '\x00'
  else if c == '\\' || c == '"' || c == '\x27' then some c
  else none

/-- The text that the inside of a string literal stands for; `offset` is where the inside
starts. An unknown escape is reported with its backslash. -/
def unescape (offset : Nat) : List Char → Except ScanError (List Char)
  | [] => .ok []
  | '\\' :: [] => .ok []
  | '\\' :: c :: rest =>
    match unescapeChar? c with
    | none => .error ⟨.unknownEscape c, ⟨offset, offset + 1 + c.utf8Size⟩⟩
    | some d => (unescape (offset + 1 + c.utf8Size) rest).map (d :: ·)
  | c :: rest => (unescape (offset + c.utf8Size) rest).map (c :: ·)

/-- The number that decimal digits stand for. Other characters are passed over, so that the
digits of a number with a point can be read at once. -/
def digitsValue (text : List Char) : Nat :=
  (text.filter Char.isDigit).foldl (fun n c => 10 * n + (c.toNat - '0'.toNat)) 0

/-- The greatest whole number, one less than `2 ^ 63`. -/
def maxInteger : Nat := 9223372036854775807

/-- The token that a piece of the source stands for, or nothing for what is skipped. -/
def ofLexeme (lexeme : Lexeme) (text : List Char) (span : Span) :
    Except ScanError (Option TokenKind) :=
  match lexeme with
  | .blank | .comment => .ok none
  | .openComment => .error ⟨.unterminatedComment, ⟨span.start, span.start + 2⟩⟩
  | .separator => .ok (some .separator)
  | .integer =>
    let value := digitsValue text
    if value ≤ maxInteger then .ok (some (.int (Int64.ofNat value)))
    else .error ⟨.integerOutOfRange (String.ofList text), span⟩
  | .decimal =>
    let places := (text.dropWhile (· ≠ '.')).length - 1
    .ok (some (.float (Decimal.ofDecimal (digitsValue text) places)))
  | .string =>
    (unescape (span.start + 1) text.tail.dropLast).map fun inside =>
      some (.literal (String.ofList inside))
  | .openString => .error ⟨.unterminatedString, span⟩
  | .name | .symbol => .ok (some (.word (String.ofList text)))
  | .unknown => .error ⟨.unknownCharacter (text.headD '\x00'), span⟩

/-- The tokens of a text that starts at byte `offset`, after `skip` characters that an earlier
piece took. -/
def scanFrom (offset : Nat) : (skip : Nat) → List Char → Except ScanError (List Token)
  | _, [] => .ok [⟨.eof, ⟨offset, offset⟩⟩]
  | skip + 1, _ :: rest => scanFrom offset skip rest
  | 0, c :: rest => do
    let (lexeme, length) := Lexeme.munch c rest
    let text := c :: rest.take length
    let span : Span := ⟨offset, offset + byteSize text⟩
    match ← ofLexeme lexeme text span with
    | none => scanFrom span.stop length rest
    | some kind => return ⟨kind, span⟩ :: (← scanFrom span.stop length rest)

/-- The tokens of a source text, an end token last. -/
def scan (source : String) : Except ScanError (List Token) :=
  scanFrom 0 0 source.toList

end Token

end SlotScript
