import SlotScript.Tree.Level
import SlotScript.Tree.Role

/-!
# From tokens to a tree

The builder reads tokens from left to right, one at a time, and never goes back. Its state is
the level of the program and a stack of frames, one for each open block, call, header and
parameter list, the innermost first. A keyword that needs a certain token after it leaves an
expectation, which the next token meets or fails.

`Builder.feed` is one step, `Builder.finish` the end, and `Program.ofTokens` the whole.
-/

namespace SlotScript

/-- What an open delimiter belongs to. -/
inductive Opener where
  /-- A block; with a head, the body of a function that is a value. -/
  | block (head : Option FunctionHead)
  /-- The arguments of a call. -/
  | call (callee : Node)
  /-- The header of a construct. -/
  | header (construct : Construct)
  /-- The parameters of a function. -/
  | params (name : String) (anonymous : Bool)

namespace Opener

/-- The delimiter itself. -/
def delimiter : Opener → Char
  | block _ => '\x7b'
  | call _ | header _ | params .. => '('

/-- The delimiter that closes it. -/
def closer : Opener → Char
  | block _ => '\x7d'
  | call _ | header _ | params .. => ')'

end Opener

/-- An open delimiter and what has been collected since. -/
structure Frame where
  /-- What the delimiter belongs to. -/
  opener : Opener
  /-- Where what it belongs to starts. -/
  span : Span
  /-- What has been collected since. -/
  level : Level := {}

/-- What the next token has to be, or may be. -/
inductive Expectation where
  /-- Anything. -/
  | any
  /-- The `(` of a construct's header. -/
  | header (construct : Construct) (span : Span)
  /-- A function's name, or the `(` of its parameters. -/
  | function (keyword : String) (span : Span)
  /-- The `(` of a named function's parameters. -/
  | params (name keyword : String) (span : Span)
  /-- The `\x7b` of a function's body. -/
  | body (head : FunctionHead) (anonymous : Bool) (close : Span)
  /-- The name that is declared. -/
  | target (decl : DeclKind) (span : Span)
  /-- A `=` after the declared name; if none comes, the declaration ends here. -/
  | initializer (decl : DeclKind) (name : String) (span : Span)
  /-- An `else` after a block; if none comes, the statement ends here. -/
  | otherwise

/-- The state of the builder. -/
structure Builder where
  /-- The level of the program. -/
  root : Level := {}
  /-- The open delimiters, innermost first. -/
  frames : List Frame := []
  /-- What the next token has to be. -/
  expectation : Expectation := .any
  /-- The token before. -/
  previous : Previous := .start
  /-- How many functions without a name there have been. -/
  anonymous : Nat := 0

namespace Builder

/-- The innermost level. -/
def level (b : Builder) : Level :=
  match b.frames with
  | [] => b.root
  | frame :: _ => frame.level

/-- What the innermost open delimiter belongs to. -/
def opener? (b : Builder) : Option Opener := b.frames.head?.map (·.opener)

/-- The builder with another innermost level. -/
def setLevel (b : Builder) (level : Level) : Builder :=
  match b.frames with
  | [] => { b with root := level }
  | frame :: outer => { b with frames := { frame with level := level } :: outer }

/-- The builder with its innermost level changed. -/
def mapLevel (b : Builder) (f : Level → Level) : Builder := b.setLevel (f b.level)

/-- The builder with its innermost level changed by a step that can fail. -/
def tryLevel (b : Builder) (f : Level → Except BuildError Level) : Except BuildError Builder :=
  return b.setLevel (← f b.level)

/-- Opens a delimiter. -/
def push (b : Builder) (opener : Opener) (span : Span) : Builder :=
  { b with frames := { opener := opener, span := span } :: b.frames }

/-- Leaves an expectation for the next token. -/
def expect (b : Builder) (expectation : Expectation) : Builder :=
  { b with expectation := expectation }

/-! ## Delimiters -/

/-- A `(`: a call if it follows something that can be called, and a group otherwise. -/
def openParen (b : Builder) (previous : Previous) (span : Span) : Builder :=
  match b.level.run, previous.isCallable with
  | .operand callee :: rest, true =>
    (b.mapLevel fun level => { level with run := rest }).push (.call callee)
      (callee.span.merge span)
  | _, _ => b.mapLevel fun level => { level with groups := span :: level.groups }

/-- The end of a call: the call is an operand. -/
def finishCall (b : Builder) (callee : Node) (opening close : Span) (level : Level) :
    Except BuildError Builder := do
  let level ← level.closePart
  let args ← Level.listParts .argument close level.parts.reverse
  return { b.mapLevel (·.operand (.call callee args (opening.merge close))) with
    previous := .closedCall }

/-- The item that a construct's header makes of its parts. -/
def headerItem (construct : Construct) (span close : Span) (parts : List (Option Node)) :
    Except BuildError Item :=
  match construct, parts with
  | .branch, [some cond] => .ok (.branch cond span)
  | .whileLoop, [some cond] => .ok (.whileLoop cond span)
  | .forLoop, [init, cond, step] => .ok (.forLoop init cond step span)
  | .forLoop, [_, _] => .error { fault := .forEach, span := span.merge close }
  | .forLoop, parts =>
    .error { fault := .invalidHeader parts.length, span := span.merge close }
  | _, [none] => .error { fault := .expected .condition, span := close }
  | _, _ => .error { fault := .unexpectedWord ";", span := span.merge close }

/-- The end of a construct's header. -/
def finishHeader (b : Builder) (construct : Construct) (span close : Span) (level : Level) :
    Except BuildError Builder := do
  let level ← level.closePart
  let item ← headerItem construct span close level.parts.reverse
  return { b.mapLevel (·.item item) with previous := .closedHeader }

/-- The parameter that an expression in a parameter list stands for. -/
def paramOf : Node → Except BuildError Param
  | .ident name _ span => .ok (.mk name none span)
  | .assign name _ .plain none value span => .ok (.mk name (some value) span)
  | node => .error { fault := .invalidParameter, span := node.span }

/-- The end of a parameter list. -/
def finishParams (b : Builder) (name : String) (anonymous : Bool) (span close : Span)
    (level : Level) : Except BuildError Builder := do
  let level ← level.closePart
  let parts ← Level.listParts .parameter close level.parts.reverse
  let params ← parts.mapM paramOf
  return b.expect (.body ⟨name, params, span⟩ anonymous close)

/-- A `)`: it closes a group, or else what the innermost frame belongs to. -/
def closeParen (b : Builder) (span : Span) : Except BuildError Builder :=
  match b.level.groups, b.frames with
  | _ :: groups, _ => .ok (b.mapLevel fun level => { level with groups := groups })
  | [], [] => .error { fault := .unmatchedParen, span := span }
  | [], frame :: outer =>
    let b := { b with frames := outer }
    match frame.opener with
    | .call callee => b.finishCall callee frame.span span frame.level
    | .header construct => b.finishHeader construct frame.span span frame.level
    | .params name anonymous => b.finishParams name anonymous frame.span span frame.level
    | .block _ =>
      .error { fault := .mismatched '\x7d' ')', span := span, opened := some frame.span }

/-- A `\x7b`: it opens a block. -/
def openBrace (b : Builder) (span : Span) : Except BuildError Builder := do
  let b ← b.tryLevel Level.closeExpression
  return b.push (.block none) span

/-- The end of a block. The body of a function that is a value makes an operand; any other
block may still be followed by an `else`. -/
def finishBlock (b : Builder) (head : Option FunctionHead) (opening close : Span)
    (level : Level) : Except BuildError Builder := do
  let level ← level.closeLine
  let block := Node.block level.lines.reverse (opening.merge close)
  match head with
  | some head => return b.mapLevel (·.operand (← head.complete none block))
  | none => return (b.mapLevel (·.item (.node block))).expect .otherwise

/-- A `\x7d`: it closes the innermost block. -/
def closeBrace (b : Builder) (span : Span) : Except BuildError Builder :=
  match b.level.groups, b.frames with
  | opening :: _, _ =>
    .error { fault := .mismatched ')' '\x7d', span := span, opened := some opening }
  | [], [] => .error { fault := .unexpectedWord "\x7d", span := span }
  | [], frame :: outer =>
    match frame.opener with
    | .block head => { b with frames := outer }.finishBlock head frame.span span frame.level
    | opener =>
      .error
        { fault := .mismatched opener.closer '\x7d', span := span, opened := some frame.span }

/-! ## Separators -/

/-- Ends a statement, unless a group is open. -/
def endStatement (b : Builder) : Except BuildError Builder :=
  match b.level.groups with
  | opening :: _ => .error { fault := .unclosed '(', span := opening }
  | [] => b.tryLevel Level.closeLine

/-- A `;`: between statements, or between the parts of a header. -/
def semicolon (b : Builder) (span : Span) : Except BuildError Builder :=
  match b.opener?, b.level.groups with
  | none, _ | some (.block _), _ => b.endStatement
  | some (.header _), [] => b.tryLevel Level.closePart
  | _, _ => .error { fault := .unexpectedWord ";", span := span }

/-- A `,`: between arguments or parameters. -/
def comma (b : Builder) (span : Span) : Except BuildError Builder :=
  match b.opener?, b.level.groups with
  | some (.call _), [] | some (.params ..), [] => b.tryLevel Level.closePart
  | _, _ => .error { fault := .unexpectedWord ",", span := span }

/-! ## Statements -/

/-- A `=`: what stands before it has to be a name, outside every group. -/
def equals (b : Builder) (span : Span) : Except BuildError Builder :=
  match b.level.groups, b.level.run with
  | [], [.operand (.ident name _ target)] =>
    .ok (b.mapLevel fun level =>
      { level with run := [] }.item (.assign name .plain target))
  | [], [.operand node] => .error { fault := .invalidTarget, span := node.span }
  | _, _ => .error { fault := .invalidTarget, span := span }

/-- An `else`: it has to follow a finished expression. -/
def otherwise (b : Builder) (span : Span) : Except BuildError Builder := do
  let b ← b.tryLevel Level.closeExpression
  match b.level.items with
  | .node _ :: _ => return b.mapLevel (·.item (.otherwise span))
  | _ => .error { fault := .strayElse, span := span }

/-- Ends the expression before a keyword and leaves an expectation. -/
def start (b : Builder) (expectation : Expectation) : Except BuildError Builder := do
  let b ← b.tryLevel Level.closeExpression
  return b.expect expectation

/-- A declaration that no `=` follows: a variable starts out as nothing, a constant needs a
value. -/
def declareBare (b : Builder) (decl : DeclKind) (name : String) (span : Span) :
    Except BuildError Builder :=
  match decl with
  | .const => .error { fault := .expected .initializer, span := span }
  | _ =>
    .ok (b.mapLevel (·.item (.node (.assign name .unresolved decl none (.null span) span))))

/-! ## Tokens -/

/-- Adds an operand to the expression. -/
def operand (b : Builder) (node : Node) : Builder := b.mapLevel (·.operand node)

/-- Adds an operator to the expression. -/
def operator (b : Builder) (op : Operator) (base : Nat) (span : Span) : Builder :=
  b.mapLevel (·.operator op base span)

/-- A word that meets no expectation. -/
def word (b : Builder) (previous : Previous) (text : String) (span : Span) :
    Except BuildError Builder :=
  match Role.ofWord text with
  | .openParen => .ok (b.openParen previous span)
  | .closeParen => b.closeParen span
  | .openBrace => b.openBrace span
  | .closeBrace => b.closeBrace span
  | .comma => b.comma span
  | .equals => b.equals span
  | .construct construct => b.start (.header construct span)
  | .otherwise => b.otherwise span
  | .function => .ok (b.expect (.function text span))
  | .declare decl => b.start (.target decl span)
  | .ret => .ok (b.operator .ret returnPrecedence span)
  | .breakLoop => .ok (b.operand (.breakLoop span))
  | .continueLoop => .ok (b.operand (.continueLoop span))
  | .bool value => .ok (b.operand (.bool value span))
  | .null => .ok (b.operand (.null span))
  | .unsupported => .error { fault := .unsupported text, span := span }
  | .minus =>
    if previous.endsOperand then
      .ok (b.operator (.binary .sub) BinaryOp.sub.precedence span)
    else .ok (b.operator (.unary .neg) UnaryOp.neg.precedence span)
  | .unary op => .ok (b.operator (.unary op) op.precedence span)
  | .binary op => .ok (b.operator (.binary op) op.precedence span)
  | .compound op => .ok (b.operator (.compound op) compoundPrecedence span)
  | .name => .ok (b.operand (.ident text .unresolved span))
  | .unknown => .error { fault := .unexpectedWord text, span := span }

/-- A token that meets no expectation. -/
def handle (b : Builder) (previous : Previous) (token : Token) : Except BuildError Builder :=
  match token.kind with
  | .int value => .ok (b.operand (.int value token.span))
  | .float bits => .ok (b.operand (.float bits token.span))
  | .literal text => .ok (b.operand (.str text token.span))
  | .separator => b.semicolon token.span
  | .eof => .ok b
  | .word text => b.word previous text token.span

/-- The name that a token can declare. -/
def nameOf? (token : Token) : Option String :=
  token.kind.word?.filter isIdentifier

/-- The made-up name of the next function without one. -/
def anonymousName (b : Builder) : String := "anon#" ++ toString b.anonymous

/-- Opens a delimiter if the token is a `(`. -/
def openAt (b : Builder) (token : Token) (keyword : String) (opener : Opener) (span : Span) :
    Except BuildError Builder :=
  if token.kind = .word "(" then .ok (b.push opener span)
  else .error { fault := .expectedParen keyword, span := token.span }

/-- The token after a function's keyword: its name, or the start of its parameters. -/
def functionToken (b : Builder) (token : Token) (keyword : String) (span : Span) :
    Except BuildError Builder :=
  match nameOf? token with
  | some name => b.start (.params name keyword span)
  | none =>
    { b with anonymous := b.anonymous + 1 }.openAt token keyword (.params b.anonymousName true)
      span

/-- The token after a parameter list, which starts the function's body. A named function waits
as an item; a function that is a value waits with its body. -/
def bodyToken (b : Builder) (token : Token) (head : FunctionHead) (anonymous : Bool) :
    Except BuildError Builder :=
  if token.kind ≠ .word "\x7b" then .error { fault := .missingBody, span := token.span }
  else if anonymous then .ok (b.push (.block (some head)) token.span)
  else .ok ((b.mapLevel (·.item (.define head))).push (.block none) token.span)

/-- The token that should be the name of a declaration. -/
def targetToken (b : Builder) (token : Token) (decl : DeclKind) (span : Span) :
    Except BuildError Builder :=
  match nameOf? token with
  | some name => .ok (b.expect (.initializer decl name (span.merge token.span)))
  | none => .error { fault := .invalidTarget, span := token.span }

/-- The token after a declared name: a `=`, or one that follows the declaration. -/
def initializerToken (b : Builder) (previous : Previous) (token : Token) (decl : DeclKind)
    (name : String) (span : Span) : Except BuildError Builder :=
  if token.kind = .word "=" then .ok (b.mapLevel (·.item (.assign name decl span)))
  else do
    let b ← b.declareBare decl name span
    b.handle previous token

/-- The token after a block: an `else`, or one that follows the statement. -/
def otherwiseToken (b : Builder) (previous : Previous) (token : Token) :
    Except BuildError Builder :=
  if token.kind = .word "else" then b.handle previous token
  else do
    let b ← b.tryLevel Level.closeLine
    b.handle previous token

/-- Reads one token. -/
def feed (b : Builder) (token : Token) : Except BuildError Builder :=
  let previous := b.previous
  let expectation := b.expectation
  let b := { b with previous := .token token.kind, expectation := .any }
  match expectation with
  | .any => b.handle previous token
  | .header construct span => b.openAt token construct.keyword (.header construct) span
  | .function keyword span => b.functionToken token keyword span
  | .params name keyword span => b.openAt token keyword (.params name false) span
  | .body head anonymous _ => b.bodyToken token head anonymous
  | .target decl span => b.targetToken token decl span
  | .initializer decl name span => b.initializerToken previous token decl name span
  | .otherwise => b.otherwiseToken previous token

/-- Settles an expectation that the end of the tokens leaves open; `ending` is where the end token
stands, if there is one. -/
def settle (b : Builder) (ending : Option Span) : Except BuildError Builder :=
  match b.expectation with
  | .any => .ok b
  | .header construct span =>
    .error { fault := .expectedParen construct.keyword, span := ending.getD span }
  | .function keyword span | .params _ keyword span =>
    .error { fault := .expectedParen keyword, span := ending.getD span }
  | .body _ _ close => .error { fault := .missingBody, span := ending.getD close }
  | .target _ span => .error { fault := .invalidTarget, span := ending.getD span }
  | .initializer decl name span => b.declareBare decl name span
  | .otherwise => b.tryLevel Level.closeLine

/-- Ends the program. Every delimiter has to be closed. -/
def finish (b : Builder) (ending : Option Span) : Except BuildError Program := do
  let b ← b.settle ending
  match b.frames, b.root.groups with
  | frame :: _, _ => .error { fault := .unclosed frame.opener.delimiter, span := frame.span }
  | [], opening :: _ => .error { fault := .unclosed '(', span := opening }
  | [], [] => do
    let root ← b.root.closeLine
    return { body := root.lines.reverse }

end Builder

/-- The program that the tokens up to the first end token make. -/
def Program.ofTokens (tokens : List Token) : Except BuildError Program := do
  let b ← (tokens.takeWhile (·.kind ≠ .eof)).foldlM Builder.feed {}
  b.finish ((tokens.find? (·.kind = .eof)).map (·.span))

end SlotScript
