import SlotScript.Command

/-!
# The program

Reads the arguments, the environment and the file that a command names, and writes what the
command reports.
-/

namespace SlotScript

/-- Why a file cannot be read, as a command reports it. -/
def fileError : IO.Error → FileContent
  | .noFileOrDirectory .. => .missing
  | .permissionDenied .. => .denied
  | .inappropriateType _ code details | .resourceExhausted _ code details =>
    .unreadable (details ++ " (os error " ++ toString code ++ ")")
  | error => .unreadable (toString error)

/-- Reads a file. -/
def readFileContent (path : String) : IO FileContent := do
  try
    return .bytes (← IO.FS.readBinFile path)
  catch error =>
    return fileError error

/-- The path that a command will read, if it reads one. -/
def pathOf : List String → Option String
  | name :: path :: _ => (Command.FileCommand.ofName? name).map fun _ => path
  | _ => none

end SlotScript

open SlotScript in
/-- Runs a command and returns its exit status. -/
def main (args : List String) : IO UInt32 := do
  let content ← match pathOf args with
    | some path => readFileContent path
    | none => pure .missing
  let noColour := (← IO.getEnv "NO_COLOR").isSome
  let stderr ← IO.getStderr
  let terminal ← stderr.isTty
  let report := Command.execute
    { read := fun _ => content, noColour := noColour, terminal := terminal } args
  (← IO.getStdout).putStr report.out
  stderr.putStr report.err
  return report.exit.toUInt32
