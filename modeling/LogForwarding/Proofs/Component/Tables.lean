/-
# The tables of components

Each source and each transform is one table of the document. A sink is a table
with the assignments for its type and inputs, to which those of a file with
credentials are added; the tables for a user name and password and for TLS
follow, where there are any. Here the tables are written down as such, without
templates; none of them has more headers than one, whatever the values are.

Key definitions: `NodeLog.table`, `routeTable`, `Input.table`,
`Pipeline.table`, `Credential.entries`, `Credential.tables`,
`Plan.sinkTables`.
Key theorems: `Plan.proper_sinkTables`.
-/
import LogForwarding.Configuration
import LogForwarding.Proofs.Document.Table

namespace LogForwarding

open Toml

/-! ### Tables of assignments -/

/-- The lines of some assignments. -/
def Toml.assignments (entries : List (String × String)) : List String :=
  entries.map fun (key, value) => assignment key value

/-- The table of the given name with some assignments. -/
def Toml.Table.ofEntries (comment : Option String) (name : String)
    (entries : List (String × String)) : Table where
  comment := comment
  name := name
  body := assignments entries

/-- A table of assignments is proper if no key and no value is divided. -/
theorem Toml.Table.proper_ofEntries {comment : Option String} {name : String}
    {entries : List (String × String)} (hc : ∀ c ∈ comment, '\n' ∉ c.toList)
    (hn : '\n' ∉ name.toList)
    (he : ∀ e ∈ entries, '\n' ∉ e.1.toList ∧ '\n' ∉ e.2.toList) :
    (Table.ofEntries comment name entries).Proper := by
  refine ⟨hc, hn, fun line hl => ?_⟩
  obtain ⟨e, hmem, rfl⟩ := List.mem_map.1 hl
  exact ⟨by simp [assignment], by simpa [assignment] using he e hmem⟩

/-! ### Sources and transforms -/

namespace NodeLog

/-- The log in words. -/
def description : NodeLog → String
  | container => "containers (including openshift containers)"
  | journal => "linux journal"
  | hostAudit => "host audit"
  | kubernetesAudit => "kubernetes audit"
  | openshiftAudit => "openshift audit"
  | ovnAudit => "ovn audit"

/-- The assignments of the source of the log. -/
def entries (settings : Settings) (log : NodeLog) : List (String × String) :=
  match log with
  | container =>
    [("type", "\"kubernetes_logs\""), ("auto_partial_merge", "true"),
      ("exclude_paths_glob_patterns", Toml.array stackExclusions)]
  | journal => [("type", "\"journald\"")]
  | hostAudit | kubernetesAudit | openshiftAudit | ovnAudit =>
    [("type", "\"file\""), ("ignore_older_secs", toString settings.auditIgnoreOlderSecs),
      ("include", Toml.array log.auditFile?.toList)]

/-- The table of the source of the log. -/
def table (settings : Settings) (log : NodeLog) : Table :=
  .ofEntries (some ("Logs from " ++ log.description)) ("sources." ++ log.id) (log.entries settings)

theorem newline_notMem_toDigits (n : Nat) : '\n' ∉ Nat.toDigits 10 n := by
  intro h
  have hdigit := Nat.isDigit_of_mem_toDigits (by decide) (by decide) h
  exact absurd hdigit (by decide)

theorem proper_table (settings : Settings) (log : NodeLog) : (log.table settings).Proper := by
  refine Table.proper_ofEntries ?_ ?_ ?_
  · cases log <;> simp [description]
  · cases log <;> simp [id]
  · cases log <;> simp [entries, newline_notMem_array, newline_notMem_toDigits]

end NodeLog

/-- The table of the split of the container logs. -/
def routeTable : Table :=
  .ofEntries none ("transforms." ++ routeId)
    [("type", "\"route\""), ("inputs", Toml.array [NodeLog.container.id]),
      ("route.app", "'!(" ++ platformCondition ++ ")'"),
      ("route.infra", "'" ++ platformCondition ++ "'")]

theorem proper_routeTable : routeTable.Proper := by
  have hcondition : '\n' ∉ platformCondition.toList := by decide +kernel
  refine Table.proper_ofEntries (by simp) (by simp [routeId]) ?_
  simp [newline_notMem_array, hcondition]

/-- The table of a transform that runs one line of a program. -/
def remapTable (comment : Option String) (id : String) (inputs : List String) (line : String) :
    Table where
  comment := comment
  name := "transforms." ++ id
  body :=
    [assignment "type" "\"remap\"", assignment "inputs" (Toml.array inputs),
      assignment "source" "'''", "    " ++ line, "  '''"]

theorem proper_remapTable {comment : Option String} {id line : String} (inputs : List String)
    (hc : ∀ c ∈ comment, '\n' ∉ c.toList) (hi : '\n' ∉ id.toList) (hl : '\n' ∉ line.toList) :
    (remapTable comment id inputs line).Proper := by
  refine ⟨hc, by simpa [remapTable] using hi, ?_⟩
  simp [remapTable, assignment, newline_notMem_array, hl]

/-- The table of the marking of an input. -/
def Input.table (input : Input) : Table :=
  remapTable (some ("Set log_type to " ++ Toml.quote input.name)) input.name input.feeds
    (".log_type = " ++ Toml.quote input.name)

theorem Input.proper_table (input : Input) : input.table.Proper := by
  refine proper_remapTable _ ?_ ?_ ?_
  · simp [newline_notMem_quote]
  · cases input <;> simp [name]
  · simp [newline_notMem_quote]

/-- The table of the transform that collects the inputs of a pipeline. -/
def Pipeline.table (p : Pipeline) : Table :=
  remapTable none p.id (p.inputs.map Input.name) (".pipeline_name = \"" ++ p.id ++ "\"")

theorem Pipeline.proper_table {p : Pipeline} (h : '\n' ∉ p.id.toList) : p.table.Proper :=
  proper_remapTable _ (by simp) h (by simpa using h)

/-! ### Sinks -/

namespace Credential

/-- The assignments of a credential. -/
def entries (settings : Settings) : Credential → List (String × String)
  | anonymous => []
  | mutualTls secret caBundle =>
    [("crt_file", Toml.quote (settings.secretFile secret SecretKey.certificate)),
      ("key_file", Toml.quote (settings.secretFile secret SecretKey.privateKey))] ++
    if caBundle then [("ca_file", Toml.quote (settings.secretFile secret SecretKey.trustedCa))]
    else []
  | basic secret username password =>
    [("strategy", "\"basic\""),
      ("user", Toml.quote (secretValue settings secret SecretKey.username username)),
      ("password", Toml.quote (secretValue settings secret SecretKey.password password))]
  | cloudIam _ credentialsPath => [("credentials_path", Toml.quote credentialsPath)]

/-- The assignment of trusted certificates. -/
def trustedCaEntries (settings : Settings) (secret : String) : List (String × String) :=
  [("ca_file", Toml.quote (settings.secretFile secret SecretKey.trustedCa))]

/-- What a credential adds to the table of the sink itself. -/
def ownEntries (settings : Settings) : Credential → List (String × String)
  | cloudIam secret credentialsPath => entries settings (cloudIam secret credentialsPath)
  | _ => []

/-- A table of a sink, beside the one of the sink itself. -/
def subTable (sinkId title table : String) (entries : List (String × String)) : Table :=
  .ofEntries (some title) ("sinks." ++ sinkId ++ "." ++ table) entries

/-- The table of a sink for TLS. -/
def tlsSubTable (sinkId : String) (entries : List (String × String)) : Table :=
  subTable sinkId "TLS Config" "tls" entries

/-- The table of a sink for a user name and a password. -/
def basicSubTable (sinkId : String) (entries : List (String × String)) : Table :=
  subTable sinkId "Basic Auth Config" "auth" entries

/-- The tables that follow that of the sink. -/
def tables (settings : Settings) (sinkId : String) (trustedCa : Option String)
    (credential : Credential) : List Table :=
  let entries := credential.entries settings
  let trusted := trustedCa.toList.map fun secret =>
    tlsSubTable sinkId (trustedCaEntries settings secret)
  match credential with
  | mutualTls .. => [tlsSubTable sinkId entries]
  | basic .. => basicSubTable sinkId entries :: trusted
  | anonymous | cloudIam .. => trusted

theorem newline_notMem_entries (settings : Settings) (credential : Credential) :
    ∀ e ∈ credential.entries settings, '\n' ∉ e.1.toList ∧ '\n' ∉ e.2.toList := by
  cases credential with
  | mutualTls secret caBundle => cases caBundle <;> simp [entries, newline_notMem_quote]
  | _ => simp [entries, newline_notMem_quote]

theorem proper_tables {settings : Settings} {sinkId : String} {trustedCa : Option String}
    {credential : Credential} (h : '\n' ∉ sinkId.toList) :
    ∀ t ∈ credential.tables settings sinkId trustedCa, t.Proper := by
  have hentries := newline_notMem_entries settings credential
  have htls : ∀ entries : List (String × String),
      (∀ e ∈ entries, '\n' ∉ e.1.toList ∧ '\n' ∉ e.2.toList) →
        (tlsSubTable sinkId entries).Proper := fun entries he =>
    Table.proper_ofEntries (by simp) (by simpa using h) he
  have hauth : (basicSubTable sinkId (credential.entries settings)).Proper :=
    Table.proper_ofEntries (by simp) (by simpa using h) hentries
  have htrusted : ∀ secret, (tlsSubTable sinkId (trustedCaEntries settings secret)).Proper :=
    fun secret => htls _ (by simp [trustedCaEntries, newline_notMem_quote])
  have htrustedAll : ∀ t ∈ trustedCa.toList.map fun secret =>
      tlsSubTable sinkId (trustedCaEntries settings secret), t.Proper := by
    simpa using fun secret _ => htrusted secret
  cases credential with
  | mutualTls => exact List.forall_mem_singleton.2 (htls _ hentries)
  | basic => exact List.forall_mem_cons.2 ⟨hauth, htrustedAll⟩
  | anonymous => exact htrustedAll
  | cloudIam => exact htrustedAll

end Credential

/-- The assignments of a sink that say where the logs go, and in which form. -/
def Output.targetEntries (o : Output) : List (String × String) :=
  match o.type with
  | .elasticsearch =>
    [("endpoint", Toml.quote (o.url.getD "")), ("index", "\"\x7b\x7b log_type \x7d\x7d-write\"")]
  | .loki =>
    [("endpoint", Toml.quote (o.url.getD "")), ("out_of_order_action", "\"accept\""),
      ("encoding.codec", "\"json\""), ("labels.log_type", "\"\x7b\x7b log_type \x7d\x7d\"")]
  | .http =>
    [("uri", Toml.quote (o.url.getD "")), ("method", "\"post\""), ("encoding.codec", "\"json\"")]
  | .googleCloudLogging =>
    let block := o.googleCloudLogging.getD ⟨"", ""⟩
    [("log_id", Toml.quote block.logId), ("project_id", Toml.quote block.projectId),
      ("resource.type", "\"k8s_pod\"")]

namespace Plan

/-- The assignments of the sink of an output. -/
def sinkEntries (plan : Plan) (o : Output) : List (String × String) :=
  ("type", "\"" ++ o.type.agentType ++ "\"") :: ("inputs", Toml.array (plan.readers o)) ::
    o.targetEntries

/-- The tables of the sink of an output. -/
def sinkTables (plan : Plan) (secrets : Secrets) (settings : Settings) (o : Output)
    (credential : Credential) : List Table :=
  .ofEntries none ("sinks." ++ o.id) (plan.sinkEntries o ++ credential.ownEntries settings) ::
    credential.tables settings o.id (o.caSecret? secrets)

theorem newline_notMem_sinkEntries (plan : Plan) (o : Output) :
    ∀ e ∈ plan.sinkEntries o, '\n' ∉ e.1.toList ∧ '\n' ∉ e.2.toList := by
  unfold sinkEntries Output.targetEntries
  cases o.type <;> simp [OutputType.agentType, newline_notMem_quote, newline_notMem_array]

theorem proper_sinkTables {plan : Plan} {secrets : Secrets} {settings : Settings} {o : Output}
    {credential : Credential} (h : '\n' ∉ o.id.toList) :
    ∀ t ∈ plan.sinkTables secrets settings o credential, t.Proper := by
  refine List.forall_mem_cons.2 ⟨Table.proper_ofEntries (by simp) (by simpa using h) ?_,
    Credential.proper_tables h⟩
  intro e he
  rcases List.mem_append.1 he with he | he
  · exact plan.newline_notMem_sinkEntries o e he
  · cases credential with
    | cloudIam secret path =>
      exact Credential.newline_notMem_entries settings (.cloudIam secret path) e he
    | _ => cases he

end Plan

end LogForwarding
