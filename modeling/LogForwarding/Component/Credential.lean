/-
# The part of a sink that holds its credential

The lines of a credential form an element that is named after its secret, so
that sinks with one secret share it. A sink embeds them in a table of its own
where the agent wants one. Trusted certificates stand in the table for TLS;
where a client certificate stands there too, they are among its lines.

Key definitions: `Credential.body`, `Credential.sinkPart`.
-/
import LogForwarding.Credential
import LogForwarding.Element
import LogForwarding.Identifier
import LogForwarding.Settings
import LogForwarding.Toml

namespace LogForwarding

namespace Credential

/-- The lines of a client certificate. -/
def tlsTemplate : String := Template.write
  [.text "  crt_file = ", .field "crt_file", .text "\n  key_file = ", .field "key_file"]

/-- The lines of a client certificate and of trusted certificates. -/
def tlsCaTemplate : String := Template.write
  [.text "  crt_file = ", .field "crt_file", .text "\n  key_file = ", .field "key_file",
    .text "\n  ca_file = ", .field "ca_file"]

/-- The lines of a user name and a password. -/
def basicTemplate : String := Template.write
  [.text "  strategy = \"basic\"\n  user = ", .field "user", .text "\n  password = ",
    .field "password"]

/-- The line of a file with credentials. -/
def cloudIamTemplate : String := Template.write
  [.text "  credentials_path = ", .field "credentials_path"]

/-- The line of trusted certificates. -/
def trustedCaTemplate : String := Template.write [.text "  ca_file = ", .field "ca_file"]

/-- A table of a sink under a comment. -/
def tableTemplate (title table : String) : String := Template.write
  [.text ("\n# " ++ title ++ "\n[sinks."), .field "id", .text ("." ++ table ++ "]\n"),
    .embed "strategy"]

/-- A credential, then a table with trusted certificates. The credential comes first because its
lines may belong to the table of the sink itself. -/
def withTrustedCaTemplate : String := Template.write [.embed "auth", .text "\n", .embed "tls"]

/-- A user name or password, in the style of the settings. -/
def secretValue (settings : Settings) (secret key value : String) : String :=
  match settings.secretStyle with
  | .inline => value
  | .reference => environmentReference secret key

/-- The lines of the credential. They do not depend on the sink. -/
def body (settings : Settings) : Credential → Element
  | anonymous => Element.ofTemplate "auth.none" ""
  | mutualTls secret caBundle =>
    let file (key : String) := Toml.quote (settings.secretFile secret key)
    let element :=
      (Element.ofTemplate ("auth.tls." ++ secret) (if caBundle then tlsCaTemplate else tlsTemplate)
        |>.set "crt_file" (file SecretKey.certificate)
        |>.set "key_file" (file SecretKey.privateKey))
    if caBundle then element.set "ca_file" (file SecretKey.trustedCa) else element
  | basic secret username password =>
    Element.ofTemplate ("auth.basic." ++ secret) basicTemplate
      |>.set "user" (Toml.quote (secretValue settings secret SecretKey.username username))
      |>.set "password" (Toml.quote (secretValue settings secret SecretKey.password password))
  | cloudIam secret credentialsPath =>
    Element.ofTemplate ("auth.cloud_iam." ++ secret) cloudIamTemplate
      |>.set "credentials_path" (Toml.quote credentialsPath)

/-- The line of the trusted certificates of a secret. -/
def trustedCaBody (settings : Settings) (secret : String) : Element :=
  Element.ofTemplate ("tls.ca." ++ secret) trustedCaTemplate
    |>.set "ca_file" (Toml.quote (settings.secretFile secret SecretKey.trustedCa))

/-- The table `table` of the sink, with the lines of `content`. -/
def sinkTable (sinkId title table : String) (content : Element) : Element :=
  Element.ofTemplate ("sinks." ++ sinkId ++ "." ++ table) (tableTemplate title table)
    |>.set "id" sinkId
    |>.embed "strategy" content

/-- The table of the sink for TLS. -/
def tlsTable (sinkId : String) (content : Element) : Element :=
  sinkTable sinkId "TLS Config" "tls" content

/-- The table of the sink for a user name and a password. -/
def basicTable (sinkId : String) (content : Element) : Element :=
  sinkTable sinkId "Basic Auth Config" "auth" content

/-- What the sink embeds for the credential and for the trusted certificates of a secret. -/
def sinkPart (settings : Settings) (sinkId : String) (trustedCa : Option String)
    (credential : Credential) : Element :=
  let content := credential.body settings
  match credential, trustedCa with
  | mutualTls .., _ => tlsTable sinkId content
  | anonymous, none => content
  | anonymous, some secret => tlsTable sinkId (trustedCaBody settings secret)
  | basic .., none => basicTable sinkId content
  | basic .., some secret => both (basicTable sinkId content) secret
  | cloudIam .., none => content
  | cloudIam .., some secret => both content secret
where
  /-- A part for the credential, and the table for the trusted certificates after it. -/
  both (auth : Element) (secret : String) : Element :=
    Element.ofTemplate ("sinks." ++ sinkId ++ ".credentials") withTrustedCaTemplate
      |>.embed "auth" auth
      |>.embed "tls" (tlsTable sinkId (trustedCaBody settings secret))

end Credential

end LogForwarding
