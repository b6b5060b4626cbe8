/-
# The program

The outer layer: the words of the command line go in, the steps of the program
are carried out on the file system, and the exit code tells how it went.
-/
import LogForwarding.Command.Ending

namespace LogForwarding.Command

/-- How the operating system names an error. -/
def describe : IO.Error → String
  | .noFileOrDirectory _ code details | .otherError code details
  | .inappropriateType _ code details | .permissionDenied _ code details
  | .invalidArgument _ code details | .resourceExhausted _ code details
  | .resourceBusy code details | .noSuchThing _ code details =>
    details ++ " (os error " ++ toString code.toNat ++ ")"
  | e => toString e

/-- Carry out one step on the file system. -/
def attempt {α : Type} (step : IO α) : IO (Except String α) := do
  try
    return .ok (← step)
  catch e =>
    return .error (describe e)

/-- The bytes of the file at the path. -/
def readFile (path : String) : IO ByteArray := do
  (← IO.FS.Handle.mk path .read).readBinToEnd

/-- Carry out a program on the file system. -/
def Program.perform {α : Type} : Program α → IO α
  | done value => return value
  | read path next => do (next (← attempt (readFile path))).perform
  | write path text next => do (next (← attempt (IO.FS.writeFile path text))).perform

end LogForwarding.Command

open LogForwarding.Command

/-- The program. It shows no log messages, so any text will do as a filter for them. -/
def main (args : List String) : IO UInt32 := do
  let ending ← (program (fun _ => true) args).perform
  IO.print ending.output
  IO.eprint ending.complaint
  return ending.code
