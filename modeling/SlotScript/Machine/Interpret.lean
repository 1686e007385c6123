import SlotScript.Machine.Step

/-!
# Running programs

`Machine.run` takes at most a given number of steps, so that it is total; a run that needs more
is reported as unfinished and is neither a value nor an error. On top of it: evaluating one node
in a scope, running a program from a new store, and calling a function from outside.
-/

namespace SlotScript

/-- How a bounded run of the machine ended. -/
inductive Outcome where
  /-- Nothing waits any more. -/
  | finished (flow : Flow) (store : Store)
  /-- An error. -/
  | failed (error : RunError) (store : Store)
  /-- The steps were used up. -/
  | unfinished (machine : Machine)

namespace Machine

/-- Runs at most `limit` steps. -/
def run : (limit : Nat) → Machine → Outcome
  | 0, m => .unfinished m
  | limit + 1, m =>
    match m.step with
    | .next m => run limit m
    | .done flow store => .finished flow store
    | .failed error store => .failed error store

/-- Runs at most `limit` steps after a first one. -/
def runAfter (limit : Nat) : Step → Outcome
  | .next m => run limit m
  | .done flow store => .finished flow store
  | .failed error store => .failed error store

/-- Evaluates a node in a scope. -/
def evaluate (limit : Nat) (node : Node) (scope : ScopeId) (store : Store) : Outcome :=
  run limit ⟨.eval node scope, [], store⟩

end Machine

/-- The number of steps that a run is given when nobody asks for another. -/
def stepLimit : Nat := 1000000000000000

/-- What a program or a call comes to. -/
inductive Ending where
  /-- A value. -/
  | value (value : Value)
  /-- An error. -/
  | error (error : RunError)
  /-- The steps were used up. -/
  | unfinished

/-- Calls a function from outside. The call's own errors have no span. -/
def Closure.call (closure : Closure) (limit : Nat) (args : List Value) (store : Store) :
    Ending × Store :=
  match Machine.runAfter limit (Machine.call closure args none [] store) with
  | .finished (.normal value) store | .finished (.ret value) store => (.value value, store)
  | .finished .breakLoop store | .finished .continueLoop store =>
    (.error { fault := .impossible .loopControlInBody }, store)
  | .failed error store => (.error error, store)
  | .unfinished m => (.unfinished, m.store)

/-- Runs statements in a scope until one of them returns or fails; `last` is the value of the
statement before. Each of them is given `limit` steps. -/
def runStatements (limit : Nat) (scope : ScopeId) :
    (last : Value) → List Node → Store → Ending × Store
  | last, [], store => (.value last, store)
  | _, statement :: rest, store =>
    match Machine.evaluate limit statement scope store with
    | .finished (.normal value) store => runStatements limit scope value rest store
    | .finished (.ret value) store => (.value value, store)
    | .finished .breakLoop store | .finished .continueLoop store =>
      (.error { fault := .impossible .loopControlAtTop }, store)
    | .failed error store => (.error error, store)
    | .unfinished m => (.unfinished, m.store)

/-- A store with nothing but the given global names. -/
def Store.seeded (seeds : List (String × Value)) : Store :=
  { globals := Globals.ofList seeds }

/-- Runs a program from a new store that knows the given global names. -/
def Program.interpret (program : Program) (limit : Nat) (seeds : List (String × Value)) :
    Ending × Store :=
  let (scope, store) := (Store.seeded seeds).openScope program.shape none
  runStatements limit scope .null program.body store

end SlotScript
