import SlotScript.Span
import SlotScript.Word
import SlotScript.Names
import SlotScript.Operator
import SlotScript.Text.Graphic
import SlotScript.Text.Quoted
import SlotScript.Text.Blank
import SlotScript.Decimal.Binary64
import SlotScript.Decimal.Shortest
import SlotScript.Decimal.Written
import SlotScript.Diagnostic.Code
import SlotScript.Diagnostic
import SlotScript.Token
import SlotScript.Token.Lexeme
import SlotScript.Token.Scan
import SlotScript.Scope
import SlotScript.Tree
import SlotScript.Tree.Fault
import SlotScript.Tree.Run
import SlotScript.Tree.Line
import SlotScript.Tree.Role
import SlotScript.Tree.Level
import SlotScript.Tree.Builder
import SlotScript.Tree.Outline
import SlotScript.Scope.Context
import SlotScript.Scope.Resolve
import SlotScript.Value
import SlotScript.Machine.Fault
import SlotScript.Machine.Operation
import SlotScript.Machine.Store
import SlotScript.Machine.Step
import SlotScript.Machine.Interpret
import SlotScript.Pipeline
import SlotScript.Diagnostic.Terminal
import SlotScript.Command
import SlotScript.Main
import SlotScript.Proofs.Result
import SlotScript.Proofs.Scope.Region
import SlotScript.Proofs.Scope.Resolved
import SlotScript.Proofs.Scope.Walk
import SlotScript.Proofs.Scope.Lexical
import SlotScript.Proofs.Machine.Growth
import SlotScript.Proofs.Machine.Session
import SlotScript.Proofs.Machine.Address
import SlotScript.Proofs.Machine.LoopControl
import SlotScript.Proofs.Machine.Record
import SlotScript.Proofs.Machine.Constant
import SlotScript.Proofs.Tree.Bare
import SlotScript.Proofs.Tree.Source
import SlotScript.Proofs.Tree.Reading
import SlotScript.Proofs.Tree.Conservation
import SlotScript.Proofs.Tree.Feed
import SlotScript.Proofs.Tree.RoundTrip
import SlotScript.Proofs.Token.Spaced
import SlotScript.Proofs.Arithmetic
import SlotScript.Proofs.Tree.Nesting
import SlotScript.Proofs.Tree.Group
import SlotScript.Proofs.Tree.Unnamed
import SlotScript.Proofs.Tree.Sequence
import SlotScript.Proofs.Machine.Reach
import SlotScript.Proofs.Scope.Rename
import SlotScript.Proofs.Machine.Rename
import SlotScript.Proofs.Scope.Spanned
import SlotScript.Proofs.Token.Within
import SlotScript.Proofs.Tree.Within
import SlotScript.Proofs.Machine.Blame
import SlotScript.Proofs.Failure
import SlotScript.Proofs.Layout
import SlotScript.Proofs.Flat.Strict
import SlotScript.Proofs.Decimal.Exact
import SlotScript.Proofs.Tree.Everywhere
import SlotScript.Proofs.Tree.Legible
import SlotScript.Proofs.Machine.Activation
import SlotScript.Proofs.Machine.Globals
import SlotScript.Proofs.Machine.History
import SlotScript.Proofs.Tree.Precedence
import SlotScript.Proofs.Scope.Skeleton
import SlotScript.Proofs.Text.Quoted
import SlotScript.Proofs.Tree.Look
import SlotScript.Proofs.Tree.Outline
import SlotScript.Proofs.Tree.Branch
import SlotScript.Proofs.Machine.Compound
import SlotScript.Proofs.Machine.Binding
import SlotScript.Proofs.Flat.Resolved
import SlotScript.Proofs.Machine.Splice
import SlotScript.Proofs.Tree.Stretch
import SlotScript.Proofs.Tree.Spans
import SlotScript.Proofs.Token.Tiling
import SlotScript.Proofs.Token.Literal
import SlotScript.Proofs.Diagnostic.Position
import SlotScript.Proofs.Diagnostic.Snippet
import SlotScript.Proofs.Diagnostic.Colour
import SlotScript.Proofs.Machine.Shift
import SlotScript.Proofs.Machine.Alias
import SlotScript.Proofs.Names
