/-
# What the program does with files

A run reads some files, may write one, and ends. It is a tree of these steps,
so that what it does can be said without a file system: each way to answer the
steps is a way to run it.

A request ends with the text for standard output, or with a failure. It writes
only when everything else has gone well, and then it writes the whole
configuration. What is a filter for log messages is for the library to say that
filters them, so the program is given a test for it; the messages themselves
are not among its steps.

Key definitions: `Command.Program`, `Command.Failure`,
`Command.Failure.report`, `Command.Invocation.program`.
-/
import LogForwarding.Command.Arguments
import LogForwarding.Configuration
import LogForwarding.Topology.Json

namespace LogForwarding.Command

/-- Steps that end with a value. An answer of the file system is an error text or what was asked. -/
inductive Program (α : Type) where
  /-- Nothing more to do. -/
  | done (value : α)
  /-- Read the file at the path. -/
  | read (path : String) (next : Except String ByteArray → Program α)
  /-- Replace the file at the path. -/
  | write (path text : String) (next : Except String Unit → Program α)

namespace Program

/-- One program, then another that depends on the value of the first. -/
def andThen {α β : Type} : Program α → (α → Program β) → Program β
  | done value, f => f value
  | read path next, f => read path fun answer => (next answer).andThen f
  | write path text next, f => write path text fun answer => (next answer).andThen f

instance : Monad Program where
  pure := done
  bind := andThen

end Program

/-- Why a request came to nothing: what was being done, and what went wrong if that can be said. -/
structure Failure where
  /-- What was being done. -/
  context : String
  /-- What went wrong. -/
  cause : Option String
  deriving DecidableEq, Repr

namespace Failure

/-- The characters of the text, with further lines set in by four blanks. -/
def setIn (text : String) : String :=
  String.ofList (text.toList.flatMap fun c => if c = '\n' then '\n' :: "    ".toList else [c])

/-- What went wrong, as it stands in the report. -/
def shownCause (f : Failure) : Option String := f.cause.map setIn

/-- The report on a failure. -/
def report (f : Failure) : String :=
  "Error: " ++ f.context ++ "\n" ++
    match f.shownCause with
    | some cause => "\nCaused by:\n    " ++ cause ++ "\n"
    | none => ""

end Failure

/-- Programs that can fail. -/
abbrev Attempt := ExceptT Failure Program

/-- The text of the file at the path. -/
def readText (context path : String) : Attempt String :=
  .mk <| .read path fun answer => .done <|
    match answer with
    | .error cause => .error ⟨context ++ " " ++ path, some cause⟩
    | .ok bytes =>
      match String.fromUTF8? bytes with
      | some text => .ok text
      | none => .error ⟨context ++ " " ++ path, some "stream did not contain valid UTF-8"⟩

/-- Replace the file at the path. -/
def writeText (path text : String) : Attempt Unit :=
  .mk <| .write path text fun answer => .done <|
    answer.mapError fun cause => ⟨"write " ++ path, some cause⟩

/-- A JSON text that was read, or why not. Only a misfit has a text. -/
def ofJson {α : Type} (context path : String) (result : Except Json.ReadFault α) : Attempt α :=
  .mk <| .done <| result.mapError fun fault =>
    ⟨context ++ " " ++ path,
      match fault with
      | .misfit cause => some cause.message
      | .malformed | .cutShort => none⟩

/-- A result about the topology at the path, or why there is none. -/
def ofResult {α : Type} (context path : String) (result : Except Fault α) : Attempt α :=
  .mk <| .done <| result.mapError fun fault => ⟨context ++ " " ++ path, some fault.message⟩

/-- The topology in the file at the path. -/
def readTopology (path : String) : Attempt Topology := do
  let text ← readText "read topology file" path
  ofJson "parse topology file" path (Topology.ofJson text)

/-- The secrets in the file at the path; without a path there are none. -/
def readSecrets : Option String → Attempt Secrets
  | none => return ∅
  | some path => do
    let text ← readText "read secrets file" path
    ofJson "parse secrets file" path (Secrets.ofJson text)

/-- What a request does; its value is the text for standard output. -/
def Request.program : Request → Attempt String
  | .generate topologyPath secretsPath out settings => do
    let topology ← readTopology topologyPath
    let secrets ← readSecrets secretsPath
    let conf ← ofResult "generate configuration for" topologyPath
      (topology.configuration secrets settings)
    match out with
    | none => return conf
    | some path => do
      writeText path conf
      return ""
  | .validate topologyPath => do
    let topology ← readTopology topologyPath
    let plan ← ofResult "validate" topologyPath topology.resolve
    return topologyPath ++ ": " ++ toString plan.pipelines.length ++ " pipelines, " ++
      toString plan.referenced.length ++ " outputs\n"

/-- What the program does: nothing, if the filter for log messages is none that is accepted. -/
def Invocation.program (accepts : String → Bool) (i : Invocation) : Attempt String :=
  if accepts i.logLevel then i.request.program
  else throw ⟨"bad log level " ++ Text.quoted i.logLevel, none⟩

end LogForwarding.Command
