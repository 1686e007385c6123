import SlotScript.Span
import SlotScript.Diagnostic.Code

/-!
# Diagnostics

A diagnostic says what failed and where: a code, a message, labelled spans, notes, and hints for
a repair. A stage that fails builds one from its error; `Diagnostic.text` shows it without the
source, and the terminal form is built from the same parts.
-/

namespace SlotScript

/-- A span with a message. -/
structure Label where
  /-- The place the label points at. -/
  span : Span
  /-- What is said about it. -/
  message : String
  /-- Whether this is where the failure is, rather than a place that explains it. -/
  primary : Bool
deriving DecidableEq, Repr

/-- A failure in full. -/
structure Diagnostic where
  /-- What the failure is about. -/
  code : Code
  /-- The failure in one line. -/
  message : String := ""
  /-- The places concerned, in the order in which they are shown. -/
  labels : List Label := []
  /-- Facts that explain the failure. -/
  notes : List String := []
  /-- Hints for a repair. -/
  suggestions : List String := []
deriving DecidableEq, Repr

namespace Diagnostic

/-- The span of the first primary label. -/
def primarySpan (d : Diagnostic) : Option Span :=
  (d.labels.find? (·.primary)).map (·.span)

/-- The diagnostic with a primary label after the labels it has. -/
def labelled (d : Diagnostic) (span : Span) (message : String) : Diagnostic :=
  { d with labels := d.labels ++ [⟨span, message, true⟩] }

/-- One label in the form without source. -/
def labelText (label : Label) : String :=
  "\n  " ++ (if label.primary then "-->" else "   ") ++ " " ++ label.span.text ++ ": " ++
    label.message

/-- The diagnostic without source: a headline, then one line for each label, note and hint. -/
def text (d : Diagnostic) : String :=
  "error [" ++ d.code.text ++ "]: " ++ d.message ++
    String.join (d.labels.map labelText) ++
    String.join (d.notes.map ("\n  = note: " ++ ·)) ++
    String.join (d.suggestions.map ("\n  = help: " ++ ·))

end Diagnostic

end SlotScript
