import SlotScript.Diagnostic

/-!
# Errors of the tree builder

What can be wrong with a list of tokens, in words, and as a diagnostic. The builder stops at the
first error.
-/

namespace SlotScript

/-- The parts of a program that can be found missing. -/
inductive Missing where
  | operand | value | condition | ifBody | elseBranch | loopBody | functionBody | argument
  | parameter | initializer
deriving DecidableEq, Repr

/-- The missing part in words. -/
def Missing.text : Missing → String
  | operand => "an operand"
  | value => "a value"
  | condition => "a condition"
  | ifBody => "an `if` body"
  | elseBranch => "an `else` branch"
  | loopBody => "a loop body"
  | functionBody => "a function body"
  | argument => "an argument"
  | parameter => "a parameter"
  | initializer => "an initializer for `const`"

/-- Why a list of tokens is no program. -/
inductive BuildFault where
  /-- A word where the statement cannot continue. -/
  | unexpectedWord (text : String)
  /-- A `)` with nothing open. -/
  | unmatchedParen
  /-- A construct or operator without one of its parts. -/
  | expected (missing : Missing)
  /-- Two expressions with nothing between them. -/
  | missingSeparator
  /-- An opening delimiter without its closing one. -/
  | unclosed (delimiter : Char)
  /-- A closing delimiter that does not fit the innermost open one. -/
  | mismatched (wanted found : Char)
  /-- An assignment to something that is not a name. -/
  | invalidTarget
  /-- A `for` header with a wrong number of parts. -/
  | invalidHeader (parts : Nat)
  /-- A keyword without its parenthesis. -/
  | expectedParen (keyword : String)
  /-- A function without its body. -/
  | missingBody
  /-- A reserved word without a meaning. -/
  | unsupported (word : String)
  /-- A `for` header with two parts. -/
  | forEach
  /-- An `else` without an `if`. -/
  | strayElse
  /-- A parameter that is neither a name nor a name with a default. -/
  | invalidParameter
deriving DecidableEq, Repr

/-- A fault and where it stands. -/
structure BuildError where
  /-- What is wrong. -/
  fault : BuildFault
  /-- Where. -/
  span : Span
  /-- Where the delimiter that the fault is about was opened. -/
  opened : Option Span := none
deriving DecidableEq, Repr

namespace BuildFault

/-- A text in back quotes. -/
def ticked (text : String) : String := "`" ++ text ++ "`"

/-- The fault in one line. -/
def message : BuildFault → String
  | unexpectedWord text => "unexpected " ++ ticked text
  | unmatchedParen => "unmatched `)`"
  | expected missing => "expected " ++ missing.text
  | missingSeparator => "expected `;` before this expression"
  | unclosed delimiter => "unclosed " ++ ticked (String.singleton delimiter)
  | mismatched wanted found =>
    "mismatched delimiter: expected " ++ ticked (String.singleton wanted) ++ ", found " ++
      ticked (String.singleton found)
  | invalidTarget => "invalid assignment target"
  | invalidHeader parts => "`for` header has " ++ toString parts ++ " parts, expected 3"
  | expectedParen keyword => "expected `(` after " ++ ticked keyword
  | missingBody => "expected `\x7b` to start the function body"
  | unsupported word => ticked word ++ " is reserved but not supported"
  | forEach => "for-each loops are not supported"
  | strayElse => "`else` without a preceding `if`"
  | invalidParameter => "invalid parameter, expected `name` or `name = default`"

/-- The code of the fault. -/
def code : BuildFault → Code
  | unexpectedWord _ | unmatchedParen => .unexpectedWord
  | expected _ => .missingOperand
  | missingSeparator => .missingSeparator
  | unclosed _ => .unclosedDelimiter
  | mismatched .. => .mismatchedDelimiter
  | invalidTarget => .invalidTarget
  | invalidHeader _ => .invalidHeader
  | expectedParen _ | missingBody => .missingParenOrBody
  | unsupported _ => .unsupportedWord
  | forEach => .unsupportedForEach
  | strayElse => .strayElse
  | invalidParameter => .invalidParameter

/-- Facts that explain the fault. -/
def notes : BuildFault → List String
  | unclosed _ => ["the delimiter opened here"]
  | _ => []

/-- Hints for a repair. -/
def suggestions : BuildFault → List String
  | missingSeparator => ["separate statements with `;`"]
  | forEach => ["use a three-part header: `for (init; cond; step)`"]
  | _ => []

end BuildFault

/-- The error as a diagnostic. -/
def BuildError.toDiagnostic (e : BuildError) : Diagnostic :=
  { code := e.fault.code
    message := e.fault.message
    labels :=
      ⟨e.span, "here", true⟩ :: (e.opened.map fun opening => ⟨opening, "opened here", false⟩).toList
    notes := e.fault.notes
    suggestions := e.fault.suggestions }

end SlotScript
