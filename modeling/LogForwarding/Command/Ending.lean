/-
# How the program ends

A run ends with an exit code and with what there is on the standard output and
on the standard error. The code is 0 for success and for the explanation of the
program, 1 for a failure and 2 for a command line that is wrong; only a run that
ends with 0 has anything on the standard output.

Log messages go to the standard error too, as the filter for them lets them
through. They are left out here, so nothing is said about how much there is on
the standard error of a run: only which complaint the program itself has made.

Key definitions: `Command.Ending`, `Command.program`.
-/
import LogForwarding.Command.Program

namespace LogForwarding.Command

/-- What is left of a run when it is over. -/
structure Ending where
  /-- The exit code. -/
  code : UInt32
  /-- What there is on the standard output. -/
  output : String
  /-- What the program complains of on the standard error, log messages apart. -/
  complaint : String
  deriving DecidableEq, Repr

/-- A summary of the command line. -/
def usage : String :=
  "Usage: log-forwarding [--log-level FILTER] generate --topology FILE [--secrets FILE]\n" ++
  "         [-o FILE] [--inline-secrets] [--secrets-dir DIR] [--audit-ignore-older-secs N]\n" ++
  "       log-forwarding [--log-level FILTER] validate --topology FILE\n"

/-- The end of a run that has nothing to do. -/
def Ending.ofRefusal : Refusal → Ending
  | .help => ⟨0, usage, ""⟩
  | .usage => ⟨2, "", usage⟩

/-- The end of a run that had something to do. Its log messages are left out. -/
def Ending.ofResult : Except Failure String → Ending
  | .ok output => ⟨0, output, ""⟩
  | .error failure => ⟨1, "", failure.report⟩

/-- What the program does that is called with the words of a command line, where the filters for
log messages are those that are accepted. -/
def program (accepts : String → Bool) (args : List String) : Program Ending :=
  match Invocation.ofArgs args with
  | .error refusal => .done (.ofRefusal refusal)
  | .ok invocation => do return .ofResult (← (invocation.program accepts).run)

end LogForwarding.Command
