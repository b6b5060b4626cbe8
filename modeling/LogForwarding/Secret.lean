/-
# Secrets

A secret holds bytes under keys. Of most values only their presence matters;
the others are copied into the configuration or referred to from it.

Key definitions: `Secret`, `Secrets`, `SecretKey`, `Secret.text?`.
Key theorems: `Secret.toUTF8_of_text?`.
-/
import Std.Data.ExtTreeMap

namespace LogForwarding

/-- Values by key. -/
abbrev Secret := Std.ExtTreeMap String ByteArray

/-- Secrets by name. -/
abbrev Secrets := Std.ExtTreeMap String Secret

namespace SecretKey

/-- The client's certificate. -/
def certificate : String := "tls.crt"

/-- The private key of the client's certificate. -/
def privateKey : String := "tls.key"

/-- The certificates by which a server is trusted. -/
def trustedCa : String := "ca-bundle.crt"

/-- The client's user name. -/
def username : String := "username"

/-- The client's password. -/
def password : String := "password"

/-- The path of a file with credentials for a cloud. -/
def credentialsPath : String := "credentials_path"

end SecretKey

/-- The value under `key` as text; without one, the empty text. `none` if its bytes are not
UTF-8. -/
def Secret.text? (secret : Secret) (key : String) : Option String :=
  String.fromUTF8? (secret[key]?.getD ByteArray.empty)

/-- The text under a key has the bytes that are stored there. -/
theorem Secret.toUTF8_of_text? {secret : Secret} {key text : String}
    (h : secret.text? key = some text) : text.toUTF8 = secret[key]?.getD ByteArray.empty := by
  unfold Secret.text? String.fromUTF8? at h
  split at h
  · cases h
    rfl
  · cases h

end LogForwarding
