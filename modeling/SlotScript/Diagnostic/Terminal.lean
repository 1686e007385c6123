import SlotScript.Diagnostic

/-!
# Diagnostics for a terminal

A diagnostic with the source at hand: under each label stands the line of source that it points
into, with the labelled part underlined. Parts of the text can be coloured. The text is a list
of pieces, each with the colour it would have, so that colour is decided in one place.
-/

namespace SlotScript

/-- The colours of a diagnostic. -/
inductive Colour where
  | error | help | bold | secondary
deriving DecidableEq, Repr

/-- The escape sequence that starts a colour. -/
def Colour.start : Colour → String
  | error => "\x1b[1;31m"
  | help => "\x1b[1;32m"
  | bold => "\x1b[1m"
  | secondary => "\x1b[1;34m"

/-- The escape sequence that ends every colour. -/
def Colour.reset : String := "\x1b[0m"

/-- When to use colours. -/
inductive ColourMode where
  /-- If the output is a terminal. -/
  | auto
  | always
  | never
deriving DecidableEq, Repr

/-- Whether to use colours for an output that may be a terminal. -/
def ColourMode.enabled (terminal : Bool) : ColourMode → Bool
  | auto => terminal
  | always => true
  | never => false

/-- A text and the colour it is shown in. -/
structure Piece where
  /-- The text. -/
  text : String
  /-- Its colour, if it has one. -/
  colour : Option Colour := none

/-- A text without a colour. -/
def Piece.plain (text : String) : Piece := { text := text }

/-- A text in a colour. -/
def Piece.tinted (colour : Colour) (text : String) : Piece :=
  { text := text, colour := some colour }

/-- The piece as it is written, with or without colours. -/
def Piece.render (coloured : Bool) (piece : Piece) : String :=
  match piece.colour, coloured with
  | some colour, true => colour.start ++ piece.text ++ Colour.reset
  | _, _ => piece.text

/-- What is known about where a diagnostic comes from. -/
structure Origin where
  /-- The source text. -/
  source : Option String := none
  /-- The path of the file. -/
  path : Option String := none

/-- A text of `count` copies of a character. -/
def repeated (count : Nat) (c : Char) : String := String.ofList (List.replicate count c)

/-- The lines of a text. A line ends with a line feed, or a carriage return and a line feed;
what follows the last line feed is a line only if it is not empty. -/
def linesOf (text : List Char) : List (List Char) :=
  go [] text
where
  /-- The lines of a text whose current line starts with `line` reversed. -/
  go (line : List Char) : List Char → List (List Char)
    | [] => if line.isEmpty then [] else [line.reverse]
    | c :: rest =>
      if c == '\n' then
        (match line with
          | '\r' :: line => line.reverse
          | line => line.reverse) :: go [] rest
      else go (c :: line) rest

namespace Label

/-- The colour of the label. -/
def colour (label : Label) : Colour := if label.primary then .error else .secondary

/-- The mark in front of the label's place. -/
def marker (label : Label) : String := if label.primary then "-->" else ":::"

/-- The character that underlines the label's place. -/
def underline (label : Label) : Char := if label.primary then '^' else '-'

/-- Where the label points, as far as that can be said. -/
def location (label : Label) (origin : Origin) : String :=
  let place :=
    match origin.source with
    | some source =>
      let (line, column) := label.span.lineColumn source.toList
      toString line ++ ":" ++ toString column
    | none => label.span.text
  match origin.source, origin.path with
  | some _, some path => path ++ ":" ++ place
  | none, some path => path ++ " " ++ place
  | _, none => place

/-- The label's message in its colour. -/
def messagePiece (label : Label) : Piece := .tinted label.colour label.message

/-- The line of source that the label points into, and the underline below it. -/
def snippet (label : Label) (source : List Char) : List Piece :=
  let (line, column) := label.span.lineColumn source
  let shown := String.ofList ((linesOf source)[line - 1]?.getD [])
  let gutter := repeated (toString line).length ' '
  let marks := repeated (max label.span.size 1) label.underline
  [.plain (gutter ++ " |\n"),
   .plain (toString line ++ " | " ++ shown ++ "\n"),
   .plain (gutter ++ " | " ++ repeated (column - 1) ' '),
   .tinted label.colour marks,
   .plain " "]

/-- The label with what is known about its place. -/
def pieces (label : Label) (origin : Origin) : List Piece :=
  let head := Piece.plain ("  " ++ label.marker ++ " " ++ label.location origin ++ "\n")
  let before :=
    match origin.source with
    | none => [Piece.plain "     "]
    | some source => label.snippet source.toList
  head :: before ++ [label.messagePiece, .plain "\n"]

end Label

namespace Diagnostic

/-- A note or a hint under its title. -/
def remark (title : String) (colour : Colour) (text : String) : List Piece :=
  [.plain "  = ", .tinted colour title, .plain (": " ++ text ++ "\n")]

/-- The diagnostic piece by piece. -/
def pieces (d : Diagnostic) (origin : Origin) : List Piece :=
  [.tinted .error "error", .tinted .bold ("[" ++ d.code.text ++ "]"),
   .plain (": " ++ d.message ++ "\n")] ++
    d.labels.flatMap (·.pieces origin) ++
    d.notes.flatMap (remark "note" .bold) ++
    d.suggestions.flatMap (remark "help" .help) ++
    [.plain "\n"]

/-- The diagnostic as it is written to a terminal. -/
def render (d : Diagnostic) (coloured : Bool) (origin : Origin) : String :=
  String.join ((d.pieces origin).map (Piece.render coloured))

end Diagnostic

end SlotScript
