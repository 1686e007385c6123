import SlotScript.Word
import SlotScript.Operator
import SlotScript.Scope
import SlotScript.Token

/-!
# What words do

The tree builder acts on a word by its role: it opens or closes something, starts a construct,
stands for a value, or is an operator or a name. Only a `-` has two roles, and only a `(` may
mean a call or a group; both are settled by the token before. `Previous` is what the builder
remembers of that token.
-/

namespace SlotScript

/-- The constructs with a header in parentheses. -/
inductive Construct where
  | branch | whileLoop | forLoop
deriving DecidableEq, Repr

/-- The keyword of a construct. -/
def Construct.keyword : Construct → String
  | branch => "if"
  | whileLoop => "while"
  | forLoop => "for"

/-- What a word does. -/
inductive Role where
  | openParen | closeParen | openBrace | closeBrace | comma | equals
  /-- Starts a construct. -/
  | construct (construct : Construct)
  /-- Starts an `else` branch. -/
  | otherwise
  /-- Starts a function. -/
  | function
  /-- Starts a declaration. -/
  | declare (decl : DeclKind)
  /-- Leaves the function. -/
  | ret
  | breakLoop | continueLoop
  /-- Stands for a truth value. -/
  | bool (value : Bool)
  | null
  /-- Is reserved, and has no meaning. -/
  | unsupported
  /-- Negates or subtracts. -/
  | minus
  | unary (op : UnaryOp)
  | binary (op : BinaryOp)
  | compound (op : BinaryOp)
  /-- Names a variable. -/
  | name
  /-- Means nothing. -/
  | unknown
deriving DecidableEq, Repr

/-- The roles that are tied to one spelling. -/
def Role.fixed : List (String × Role) :=
  [("(", .openParen), (")", .closeParen), ("\x7b", .openBrace), ("\x7d", .closeBrace),
   (",", .comma), ("=", .equals), ("if", .construct .branch), ("while", .construct .whileLoop),
   ("for", .construct .forLoop), ("else", .otherwise), ("def", .function),
   ("function", .function), ("var", .declare .var), ("let", .declare .var),
   ("const", .declare .const), ("return", .ret), ("break", .breakLoop),
   ("continue", .continueLoop), ("true", .bool true), ("false", .bool false), ("null", .null),
   ("-", .minus)]

/-- The role of a word. -/
def Role.ofWord (word : String) : Role :=
  match fixed.lookup word with
  | some role => role
  | none =>
    if isReserved word then .unsupported
    else
      match UnaryOp.ofSymbol? word, BinaryOp.ofSymbol? word, BinaryOp.ofCompoundSymbol? word with
      | some op, _, _ => .unary op
      | none, some op, _ => .binary op
      | none, none, some op => .compound op
      | none, none, none => if isIdentifier word then .name else .unknown

/-- What the builder remembers of the token before the current one. -/
inductive Previous where
  /-- There was none. -/
  | start
  /-- A `)` that ended the header of a construct. -/
  | closedHeader
  /-- A `)` that ended a call. -/
  | closedCall
  /-- Any other token. -/
  | token (kind : TokenKind)
deriving DecidableEq, Repr

namespace Previous

/-- Whether a word ends an operand, so that a `-` after it subtracts. -/
def wordEndsOperand (word : String) : Bool :=
  [")", "]", "true", "false", "null"].contains word || isIdentifier word

/-- Whether the token ends an operand. The `)` of a header starts a body instead. -/
def endsOperand : Previous → Bool
  | start | closedHeader => false
  | closedCall => true
  | token (.word text) => wordEndsOperand text
  | token (.int _) | token (.float _) | token (.literal _) => true
  | token .separator | token .eof => false

/-- Whether a `(` after the token can call what stands before it. -/
def isCallable : Previous → Bool
  | closedCall => true
  | token (.word text) => isIdentifier text
  | _ => false

end Previous

end SlotScript
