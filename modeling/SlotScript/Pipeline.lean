import SlotScript.Token.Scan
import SlotScript.Tree.Builder
import SlotScript.Scope.Resolve
import SlotScript.Machine.Interpret

/-!
# From source text to value

The stages one after the other. Whatever stage fails, the failure is a diagnostic.
-/

namespace SlotScript

/-- Turns a stage's error into a diagnostic. -/
def diagnose (toDiagnostic : ε → Diagnostic) : Except ε α → Except Diagnostic α
  | .ok a => .ok a
  | .error e => .error (toDiagnostic e)

/-- The tokens of a source text. -/
def tokensOf (source : String) : Except Diagnostic (List Token) :=
  diagnose ScanError.toDiagnostic (Token.scan source)

/-- The program of a source text, its names resolved. -/
def compile (source : String) : Except Diagnostic Program := do
  let tokens ← tokensOf source
  let program ← diagnose BuildError.toDiagnostic (Program.ofTokens tokens)
  diagnose ScopeError.toDiagnostic program.resolve

/-- What a source text comes to. -/
inductive Verdict where
  /-- A value. -/
  | value (value : Value)
  /-- A failure of some stage. -/
  | failure (diagnostic : Diagnostic)
  /-- The steps were used up. -/
  | unfinished

/-- Compiles and runs a source text. -/
def runSource (limit : Nat) (source : String) : Verdict :=
  match compile source with
  | .error diagnostic => .failure diagnostic
  | .ok program =>
    match (program.interpret limit []).1 with
    | .value value => .value value
    | .error error => .failure error.toDiagnostic
    | .unfinished => .unfinished

end SlotScript
