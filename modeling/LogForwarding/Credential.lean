/-
# Credentials of outputs

How a sink proves who it is follows from which keys its secret holds. The
kinds of credential that a type of output supports are tried from the
strongest on: the first one of which any key is there is taken. If another of
its keys is missing then the output is refused; a weaker kind never steps in.

Key definitions: `Credential`, `Credential.Kind`,
`OutputType.credentialKinds`, `Output.credential`, `Output.caSecret?`.
-/
import LogForwarding.Fault
import LogForwarding.Output
import LogForwarding.Secret

namespace LogForwarding

/-- The kinds of credential. -/
inductive Credential.Kind where
  /-- A client certificate. -/
  | mutualTls
  /-- A user name and a password. -/
  | basic
  /-- A file with credentials for a cloud. -/
  | cloudIam
  /-- Nothing. -/
  | anonymous
  deriving DecidableEq, Repr

/-- The keys that a secret must hold for the kind. -/
def Credential.Kind.keys : Kind → List String
  | mutualTls => [SecretKey.certificate, SecretKey.privateKey]
  | basic => [SecretKey.username, SecretKey.password]
  | cloudIam => [SecretKey.credentialsPath]
  | anonymous => []

/-- The kinds that the type of output supports, the strongest first. -/
def OutputType.credentialKinds : OutputType → List Credential.Kind
  | elasticsearch | loki | http => [.mutualTls, .basic, .anonymous]
  | googleCloudLogging => [.mutualTls, .basic, .cloudIam, .anonymous]

/-- What a sink shows to the system it writes to. -/
inductive Credential where
  /-- Nothing. -/
  | anonymous
  /-- The certificate of the secret, which may also hold trusted certificates. -/
  | mutualTls (secret : String) (caBundle : Bool)
  /-- A user name and a password. -/
  | basic (secret username password : String)
  /-- The path of a file with credentials. -/
  | cloudIam (secret credentialsPath : String)
  deriving DecidableEq, Repr

/-- The kind of a credential. -/
def Credential.kind : Credential → Kind
  | anonymous => .anonymous
  | mutualTls .. => .mutualTls
  | basic .. => .basic
  | cloudIam .. => .cloudIam

namespace Output

/-- The value under `key` of the output's secret, as text. -/
def secretText (output : Output) (secret : Secret) (key : String) : Except Fault String :=
  match secret.text? key with
  | some text => .ok text
  | none => .error (.invalidSecretValue output.name key)

/-- The credential of the given kind from the secret called `name`, all of whose keys are there. -/
def credentialOfKind (output : Output) (name : String) (secret : Secret) :
    Credential.Kind → Except Fault Credential
  | .mutualTls => return .mutualTls name (SecretKey.trustedCa ∈ secret)
  | .basic => do
    let username ← output.secretText secret SecretKey.username
    let password ← output.secretText secret SecretKey.password
    return .basic name username password
  | .cloudIam => do
    let path ← output.secretText secret SecretKey.credentialsPath
    return .cloudIam name path
  | .anonymous => return .anonymous

/-- The credential for the output: none without a secret, or if the secret holds no key of a
kind that the output supports. -/
def credential (output : Output) (secrets : Secrets) : Except Fault Credential :=
  match output.secret with
  | none => .ok .anonymous
  | some name =>
    match secrets[name]? with
    | none => .error (.missingSecret output.name name)
    | some secret =>
      match output.type.credentialKinds.find? (·.keys.any (· ∈ secret)) with
      | none => .ok .anonymous
      | some kind =>
        match kind.keys.find? (· ∉ secret) with
        | some key => .error (.missingSecretKey output.name name key)
        | none => output.credentialOfKind name secret kind

/-- The secret of the output, if it holds certificates by which the system is trusted. -/
def caSecret? (output : Output) (secrets : Secrets) : Option String :=
  output.secret.filter fun name => secrets[name]?.any (SecretKey.trustedCa ∈ ·)

end Output

end LogForwarding
