/-
# Settings of a generated configuration

Key definitions: `SecretStyle`, `Settings`, `Settings.secretFile`.
-/
import LogForwarding.Text.Trim

namespace LogForwarding

/-- How a secret value that belongs into the configuration is written there. -/
inductive SecretStyle where
  /-- As a reference to an environment variable of the agent. -/
  | reference
  /-- As the value itself. -/
  | inline
  deriving DecidableEq, Repr

/-- What can be chosen about a configuration beside its topology. -/
structure Settings where
  /-- How user names and passwords are written. -/
  secretStyle : SecretStyle := .reference
  /-- The directory in which every secret has a directory of its own. -/
  secretsDir : String := "/var/run/ocp-collector/secrets"
  /-- Audit files that have not changed for this many seconds are left out. -/
  auditIgnoreOlderSecs : Nat := 600
  deriving DecidableEq, Repr

instance : Inhabited Settings := ⟨{}⟩

/-- The file that holds the value under `key` of the secret `secret`. -/
def Settings.secretFile (settings : Settings) (secret key : String) : String :=
  Text.trimEnd '/' settings.secretsDir ++ "/" ++ secret ++ "/" ++ key

end LogForwarding
