import SlotScript.Text.Blank

/-!
# Codes of failures

Every failure has a code: the letter `E` and four digits, the first of which tells the stage
that failed (0 reading, 1 tree building, 2 scoping, 6 running, 9 internal). A code has a
description of its own, and it can be looked up by its text in either case, with blanks around
it.
-/

namespace SlotScript

/-- What a failure is about. -/
inductive Code where
  /-- A character that starts no token. -/
  | unknownCharacter
  /-- A string literal without its closing quote. -/
  | unterminatedString
  /-- An integer literal beyond 64 bits. -/
  | integerOutOfRange
  /-- An escape that string literals do not have. -/
  | unknownEscape
  /-- A block comment without its end. -/
  | unterminatedComment
  /-- A word where the statement cannot continue. -/
  | unexpectedWord
  /-- An operator or construct without an operand. -/
  | missingOperand
  /-- Two expressions with nothing between them. -/
  | missingSeparator
  /-- An opening delimiter without its closing one. -/
  | unclosedDelimiter
  /-- A closing delimiter of the wrong kind. -/
  | mismatchedDelimiter
  /-- An assignment to something that is not a name. -/
  | invalidTarget
  /-- A `for` header without three parts. -/
  | invalidHeader
  /-- A header without its parenthesis, or a function without its body. -/
  | missingParenOrBody
  /-- A reserved word without a meaning. -/
  | unsupportedWord
  /-- A `for` header with two parts. -/
  | unsupportedForEach
  /-- An `else` without an `if`. -/
  | strayElse
  /-- A parameter that is neither a name nor a name with a default. -/
  | invalidParameter
  /-- A `break` outside every loop of its function. -/
  | strayBreak
  /-- A `continue` outside every loop of its function. -/
  | strayContinue
  /-- An assignment to a constant. -/
  | constantAssigned
  /-- A free name that has no global value. -/
  | undefinedVariable
  /-- A variable read before it was assigned. -/
  | uninitializedVariable
  /-- A parameter without an argument and without a default. -/
  | missingArgument
  /-- A call of something that is not a function. -/
  | notCallable
  /-- An operand or a condition of the wrong type. -/
  | typeMismatch
  /-- A whole-number division by zero. -/
  | zeroDivisor
  /-- A whole-number result beyond 64 bits. -/
  | integerOverflow
  /-- A call with more arguments than parameters. -/
  | tooManyArguments
  /-- A state that no accepted program reaches. -/
  | internal
deriving DecidableEq, Repr, Inhabited

namespace Code

/-- Every code, in numeric order. -/
def all : List Code :=
  [.unknownCharacter, .unterminatedString, .integerOutOfRange, .unknownEscape,
   .unterminatedComment, .unexpectedWord, .missingOperand, .missingSeparator,
   .unclosedDelimiter, .mismatchedDelimiter, .invalidTarget, .invalidHeader,
   .missingParenOrBody, .unsupportedWord, .unsupportedForEach, .strayElse, .invalidParameter,
   .strayBreak, .strayContinue, .constantAssigned, .undefinedVariable, .uninitializedVariable,
   .missingArgument, .notCallable, .typeMismatch, .zeroDivisor, .integerOverflow,
   .tooManyArguments, .internal]

/-- The code as it is shown. -/
def text : Code → String
  | unknownCharacter => "E0001"
  | unterminatedString => "E0002"
  | integerOutOfRange => "E0003"
  | unknownEscape => "E0004"
  | unterminatedComment => "E0005"
  | unexpectedWord => "E1001"
  | missingOperand => "E1002"
  | missingSeparator => "E1003"
  | unclosedDelimiter => "E1004"
  | mismatchedDelimiter => "E1005"
  | invalidTarget => "E1006"
  | invalidHeader => "E1007"
  | missingParenOrBody => "E1008"
  | unsupportedWord => "E1009"
  | unsupportedForEach => "E1010"
  | strayElse => "E1011"
  | invalidParameter => "E1012"
  | strayBreak => "E2001"
  | strayContinue => "E2002"
  | constantAssigned => "E2003"
  | undefinedVariable => "E6001"
  | uninitializedVariable => "E6002"
  | missingArgument => "E6003"
  | notCallable => "E6004"
  | typeMismatch => "E6005"
  | zeroDivisor => "E6006"
  | integerOverflow => "E6007"
  | tooManyArguments => "E6008"
  | internal => "E9001"

/-- What the code means, for a reader who looks it up. -/
def description : Code → String
  | unknownCharacter => "The source contains a character that starts no token."
  | unterminatedString => "A string literal is missing its closing quote."
  | integerOutOfRange => "A number literal does not fit in a 64-bit integer."
  | unknownEscape =>
      "A string literal uses an unknown escape. Supported escapes are " ++
      "\\n \\t \\r \\0 \\\\ \\\" and \\'."
  | unterminatedComment => "A `/*` comment is never closed with `*/`."
  | unexpectedWord => "A token appears where the statement cannot continue."
  | missingOperand => "An operator or construct is missing an operand."
  | missingSeparator =>
      "Two expressions follow each other without an operator between " ++
      "them. Separate statements with `;`."
  | unclosedDelimiter => "A `(` or `\x7b` is never closed."
  | mismatchedDelimiter => "A closing delimiter does not match the innermost open one."
  | invalidTarget => "Only plain names can be assigned to."
  | invalidHeader => "A `for` header must have three parts: `for (init; cond; step)`."
  | missingParenOrBody =>
      "`if`, `while` and `for` need a parenthesised header, and a function " ++
      "definition needs a parameter list followed by a `\x7b ... \x7d` body."
  | unsupportedWord =>
      "The word is reserved but the construct it introduces (classes, " ++
      "imports, exceptions) is not supported."
  | unsupportedForEach => "Two-part `for (item; items)` loops are not supported."
  | strayElse => "`else` must directly follow the body of an `if`."
  | invalidParameter => "Parameters are written `name` or `name = default`."
  | strayBreak => "`break` can only appear inside a loop of the same function."
  | strayContinue => "`continue` can only appear inside a loop of the same function."
  | constantAssigned => "A name declared with `const` cannot be assigned again."
  | undefinedVariable => "A free name was not defined globally when it was read."
  | uninitializedVariable => "A local variable was read before any value was assigned to it."
  | missingArgument => "A parameter without a default value received no argument."
  | notCallable => "Only functions can be called."
  | typeMismatch => "An operator or condition received a value of the wrong type."
  | zeroDivisor => "Integer division or modulo by zero."
  | integerOverflow => "Integer arithmetic overflowed 64 bits."
  | tooManyArguments => "A call passed more arguments than the function declares."
  | internal => "The interpreter reached a state it considers impossible."

/-- The code with a text, in either case and with blanks around it. -/
def ofText? (text : String) : Option Code :=
  let wanted := String.ofList ((Text.trim text.toList).map Char.toUpper)
  all.find? fun code => code.text == wanted

end Code

end SlotScript
