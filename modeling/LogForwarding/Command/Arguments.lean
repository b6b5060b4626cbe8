/-
# The command line

The command line is a verb, `generate` or `validate`, and options. One option,
the log level, belongs to the whole program and may stand before or after the
verb; after it, it counts more. An option that takes a value has it in the
same word, after an equals sign (or right after a single letter), or in the
next word, which must not look like an option then. No option may be given
twice in one place. The words are read in order, and the first that is wrong
or asks for help decides.

Key definitions: `Command.Flag`, `Command.Request`, `Command.Invocation`,
`Command.Invocation.ofArgs`.
-/
import LogForwarding.Settings

namespace LogForwarding.Command

/-- The number that some decimal digits spell, below 2^64. -/
def digits64? (digits : List Char) : Option Nat :=
  if digits ≠ [] ∧ digits.all Char.isDigit then
    let n := digits.foldl (fun n c => 10 * n + (c.toNat - '0'.toNat)) 0
    if n < Nat.pow 2 64 then some n else none
  else none

/-- The number that a text spells in decimal digits, with or without a plus sign, below 2^64. -/
def number64? (text : String) : Option Nat :=
  match text.toList with
  | '+' :: digits => digits64? digits
  | digits => digits64? digits

/-- The options of the program. -/
inductive Flag where
  /-- Which log messages are shown. -/
  | logLevel
  /-- The file with the topology. -/
  | topology
  /-- The file with the secrets. -/
  | secrets
  /-- The file to write to. -/
  | out
  /-- Write values of secrets, not references to them. -/
  | inlineSecrets
  /-- The directory with the secrets. -/
  | secretsDir
  /-- The age of audit files that are left out. -/
  | auditIgnoreOlderSecs
  /-- Explain the program. -/
  | help
  deriving DecidableEq, Repr

/-- What the program is asked to do. -/
inductive Verb where
  /-- Write a configuration. -/
  | generate
  /-- Check a topology. -/
  | validate
  deriving DecidableEq, Repr

/-- The verb of the given name. -/
def Verb.ofName? (name : String) : Option Verb :=
  if name = "generate" then some .generate
  else if name = "validate" then some .validate
  else none

namespace Flag

/-- The option of the given long name. -/
def ofLong? (name : String) : Option Flag :=
  if name = "log-level" then some logLevel
  else if name = "topology" then some topology
  else if name = "secrets" then some secrets
  else if name = "out" then some out
  else if name = "inline-secrets" then some inlineSecrets
  else if name = "secrets-dir" then some secretsDir
  else if name = "audit-ignore-older-secs" then some auditIgnoreOlderSecs
  else if name = "help" then some help
  else none

/-- The option of the given letter. -/
def ofLetter? (c : Char) : Option Flag :=
  if c = 'o' then some out else if c = 'h' then some help else none

/-- The option takes a value. -/
def takesValue : Flag → Bool
  | inlineSecrets | help => false
  | logLevel | topology | secrets | out | secretsDir | auditIgnoreOlderSecs => true

/-- The option can have the value. -/
def accepts (flag : Flag) (value : String) : Bool :=
  flag ≠ auditIgnoreOlderSecs || (number64? value).isSome

/-- The option may stand after the verb, or before it if there is none. -/
def belongsTo : Option Verb → Flag → Bool
  | _, logLevel | _, help => true
  | none, _ => false
  | some .generate, _ => true
  | some .validate, flag => flag = topology

end Flag

/-- Why there is nothing to do. -/
inductive Refusal where
  /-- The command line is wrong. -/
  | usage
  /-- The program is to be explained. -/
  | help
  deriving DecidableEq, Repr

/-- A word of the command line. -/
inductive Word where
  /-- An option, perhaps with a value. -/
  | flag (flag : Flag) (value : Option String)
  /-- Something like an option that there is not. -/
  | unknown
  /-- The word after which there are no options. -/
  | endOfFlags
  /-- Any other word. -/
  | plain
  deriving DecidableEq, Repr

/-- The word looks like an option. -/
def looksLikeFlag (word : String) : Bool :=
  match word.toList with
  | '-' :: _ :: _ => true
  | _ => false

/-- The value that stands right after a letter. An equals sign before it does not belong to it. -/
def letterValue : List Char → Option String
  | [] => none
  | '=' :: value => some (String.ofList value)
  | value => some (String.ofList value)

/-- What a word of the command line is. -/
def Word.ofString (word : String) : Word :=
  match word.toList with
  | ['-', '-'] => .endOfFlags
  | '-' :: '-' :: rest =>
    let name := String.ofList (rest.takeWhile (· ≠ '='))
    let value := match rest.dropWhile (· ≠ '=') with
      | [] => none
      | _ :: value => some (String.ofList value)
    match Flag.ofLong? name with
    | some known => .flag known value
    | none => .unknown
  | '-' :: letter :: rest =>
    match Flag.ofLetter? letter with
    -- A letter without a value may be followed by others.
    | some known => .flag known (if known.takesValue then letterValue rest else none)
    | none => .unknown
  | _ => .plain

/-- Options that were given, each with its value; one that takes none has the empty value. -/
abbrev Given := List (Flag × String)

/-- Add an option that was not given before, with a value that it can have. -/
def Given.add (given : Given) (flag : Flag) (value : String) : Except Refusal Given :=
  if given.any (·.1 == flag) ∨ ¬ flag.accepts value then .error .usage
  else .ok ((flag, value) :: given)

/-- The value of an option. -/
def Given.get? (given : Given) (flag : Flag) : Option String := given.lookup flag

/-- The options at the beginning of the words, and the words from the first one that is none. -/
def readFlags (verb : Option Verb) (given : Given) :
    List String → Except Refusal (Given × List String)
  | [] => .ok (given, [])
  | word :: rest =>
    match Word.ofString word with
    | .plain => .ok (given, word :: rest)
    | .endOfFlags => if rest = [] then .ok (given, []) else .error .usage
    | .unknown => .error .usage
    | .flag flag attached =>
      if ¬ flag.belongsTo verb then .error .usage
      else if flag.takesValue then
        match attached, rest with
        | some value, rest => do readFlags verb (← given.add flag value) rest
        | none, value :: rest =>
          if looksLikeFlag value then .error .usage
          else do readFlags verb (← given.add flag value) rest
        | none, [] => .error .usage
      else if attached.isSome then .error .usage
      else if flag = .help then .error .help
      else do readFlags verb (← given.add flag "") rest

/-- Something to do. -/
inductive Request where
  /-- Write the configuration of the topology in a file. -/
  | generate (topology : String) (secrets out : Option String) (settings : Settings)
  /-- Check the topology in a file. -/
  | validate (topology : String)
  deriving DecidableEq, Repr

/-- Something to do, and which log messages are shown with it. -/
structure Invocation where
  /-- The filter for log messages. -/
  logLevel : String
  /-- What to do. -/
  request : Request
  deriving DecidableEq, Repr

/-- The request that the verb and its options make. -/
def Request.ofGiven (verb : Verb) (given : Given) : Except Refusal Request :=
  match given.get? .topology with
  | none => .error .usage
  | some topology =>
    match verb with
    | .validate => .ok (.validate topology)
    | .generate =>
      let defaults : Settings := {}
      let seconds := match given.get? .auditIgnoreOlderSecs with
        | none => some defaults.auditIgnoreOlderSecs
        | some text => number64? text
      match seconds with
      | none => .error .usage
      | some auditIgnoreOlderSecs =>
        let settings : Settings := {
          secretStyle := if (given.get? .inlineSecrets).isSome then .inline else .reference
          secretsDir := (given.get? .secretsDir).getD defaults.secretsDir
          auditIgnoreOlderSecs }
        .ok (.generate topology (given.get? .secrets) (given.get? .out) settings)

/-- What the words of a command line ask for. -/
def Invocation.ofArgs (args : List String) : Except Refusal Invocation := do
  let (before, words) ← readFlags none [] args
  match words with
  | [] => throw .usage
  | ["help"] | ["help", "help"] => throw .help
  | ["help", topic] => throw (if (Verb.ofName? topic).isSome then .help else .usage)
  | name :: words =>
    match Verb.ofName? name with
    | none => throw .usage
    | some verb =>
      let (given, rest) ← readFlags (some verb) [] words
      if rest ≠ [] then throw .usage
      let request ← Request.ofGiven verb given
      let logLevel := (given.get? .logLevel).getD ((before.get? .logLevel).getD "warn")
      return { logLevel, request }

end LogForwarding.Command
