/-
# A configuration can be read back

What is declared of an output stands in the table of its sink, each value in
an assignment of its own, and can be read from the text of the configuration
by the names of the table and of the key. Reading a TOML value gives the
declared text, whatever its characters are: neither the quotes around it nor
the templates, the layout or the other tables take anything from it.

Key definitions: `Toml.textsAt`, `Toml.arraysAt`, `Topology.readers`,
`Topology.Recorded`.
Key theorems: `Plan.Sound.assigned_sink`, `Output.stored_of_credential`,
`Topology.recorded`.
-/
import LogForwarding.Proofs.Document.Names
import LogForwarding.Proofs.Toml.Quoting

namespace LogForwarding

open Toml

/-! ### Values in a text -/

/-- The texts that the table assigns to the key; `none` for a value that is not a text. -/
def Toml.textsAt (table key text : String) : List (Option String) :=
  (assigned key (below table (Text.lines text))).map string?

/-- The lists of texts that the table assigns to the key; `none` for another value. -/
def Toml.arraysAt (table key text : String) : List (Option (List String)) :=
  (assigned key (below table (Text.lines text))).map array?

/-! ### What is declared -/

/-- The ids of the pipelines that are declared to name the output, in the order of their
declaration. -/
def Topology.readers (t : Topology) (output : String) : List String :=
  (t.pipelines.zipIdx.filter (output ∈ ·.1.outputs)).map fun (p, i) =>
    componentId (p.effectiveName i)

/-- What the secret of the output stores under the key. -/
def Output.stored? (o : Output) (secrets : Secrets) (key : String) : Option ByteArray :=
  (o.secret.bind (secrets[·]?)).bind (·[key]?)

/-- What is declared of an output is recorded in the text. -/
structure Topology.Recorded (t : Topology) (secrets : Secrets) (settings : Settings) (o : Output)
    (credential : Credential) (text : String) : Prop where
  /-- The sink reads from the pipelines that name the output. -/
  inputs : arraysAt ("sinks." ++ o.id) "inputs" text = [some (t.readers o.name)]
  /-- An Elasticsearch cluster or a Loki server is reached by the url. -/
  endpoint : o.type = .elasticsearch ∨ o.type = .loki →
    ∃ url, o.url = some url ∧ textsAt ("sinks." ++ o.id) "endpoint" text = [some url]
  /-- So is a server that takes HTTP requests. -/
  uri : o.type = .http →
    ∃ url, o.url = some url ∧ textsAt ("sinks." ++ o.id) "uri" text = [some url]
  /-- Logs go to the log of the project. -/
  googleCloudLogging : o.type = .googleCloudLogging →
    ∃ block, o.googleCloudLogging = some block ∧
      textsAt ("sinks." ++ o.id) "project_id" text = [some block.projectId] ∧
      textsAt ("sinks." ++ o.id) "log_id" text = [some block.logId]
  /-- The path of a file with credentials is the one that is stored. -/
  credentialsPath : credential.kind = .cloudIam →
    ∃ path, textsAt ("sinks." ++ o.id) "credentials_path" text = [some path] ∧
      o.stored? secrets SecretKey.credentialsPath = some path.toUTF8
  /-- There is none for another credential. -/
  noCredentialsPath : credential.kind ≠ .cloudIam →
    textsAt ("sinks." ++ o.id) "credentials_path" text = []
  /-- A user name and a password that are written as they are, are those that are stored. -/
  login : credential.kind = .basic → settings.secretStyle = .inline →
    ∃ username password,
      textsAt ("sinks." ++ o.id ++ ".auth") "user" text = [some username] ∧
      textsAt ("sinks." ++ o.id ++ ".auth") "password" text = [some password] ∧
      o.stored? secrets SecretKey.username = some username.toUTF8 ∧
      o.stored? secrets SecretKey.password = some password.toUTF8

/-- Every output of a topology with a plan has the target that its type asks for. -/
theorem Topology.WellFormed.exists_target {t : Topology} (h : t.WellFormed) {o : Output}
    (ho : o ∈ t.allOutputs) :
    (o.type.needsUrl → ∃ url, o.url = some url) ∧
      (o.type = .googleCloudLogging → ∃ block, o.googleCloudLogging = some block) := by
  rcases mem_allOutputs.1 ho with ⟨d, hd, rfl⟩ | ⟨_, rfl⟩
  · have htarget := h.targets d hd
    exact ⟨fun hurl => (htarget.url hurl).imp fun _ => And.left, htarget.block⟩
  · exact ⟨fun _ => ⟨_, rfl⟩, fun htype => by cases htype⟩

/-- The texts of a credential are those that its secret stores. -/
theorem Output.stored_of_credential {o : Output} {secrets : Secrets} {credential : Credential}
    (h : o.credential secrets = .ok credential) :
    match credential with
    | .basic _ username password =>
      o.stored? secrets SecretKey.username = some username.toUTF8 ∧
        o.stored? secrets SecretKey.password = some password.toUTF8
    | .cloudIam _ path => o.stored? secrets SecretKey.credentialsPath = some path.toUTF8
    | .mutualTls .. | .anonymous => True := by
  have hstored : ∀ {name : String} {secret : Secret} {key text : String},
      o.secret = some name → secrets[name]? = some secret → key ∈ secret →
        secret.text? key = some text → o.stored? secrets key = some text.toUTF8 := by
    intro name secret key text hname hsecret hkey htext
    obtain ⟨value, hvalue⟩ :=
      Option.isSome_iff_exists.1 (Std.ExtTreeMap.mem_iff_isSome_getElem?.1 hkey)
    rw [stored?, hname, Option.bind_some, hsecret, Option.bind_some, hvalue,
      Secret.toUTF8_of_text? htext, hvalue, Option.getD_some]
  rcases ofSecret?_of_credential h with rfl | ⟨name, secret, hname, hsecret, hkeys, hc⟩
  · trivial
  cases credential with
  | anonymous => trivial
  | mutualTls => trivial
  | basic _ username password =>
    have hkeys' := List.forall_mem_cons.1 hkeys
    simp only [Credential.kind, Credential.ofSecret?, Option.bind_eq_bind,
      Option.bind_eq_some_iff, Option.pure_def, Option.some.injEq, Credential.basic.injEq] at hc
    obtain ⟨_, husername, _, hpassword, _, rfl, rfl⟩ := hc
    exact ⟨hstored hname hsecret hkeys'.1 husername,
      hstored hname hsecret (hkeys'.2 _ (List.mem_singleton_self _)) hpassword⟩
  | cloudIam _ path =>
    simp only [Credential.kind, Credential.ofSecret?, Option.map_eq_some_iff,
      Credential.cloudIam.injEq] at hc
    obtain ⟨_, hpath, _, rfl⟩ := hc
    exact hstored hname hsecret (hkeys _ (List.mem_singleton_self _)) hpath

/-- No key of a credential has a blank in it. -/
theorem Credential.blank_notMem_entries (settings : Settings) (credential : Credential) :
    ∀ e ∈ credential.entries settings, ' ' ∉ e.1.toList := by
  cases credential with
  | mutualTls _ caBundle => cases caBundle <;> simp [entries]
  | _ => simp [entries]

namespace Plan

variable {plan : Plan} {secrets : Secrets} {settings : Settings}
  {served : List (Output × Credential)}

theorem mem_tables_of_mem_served {o : Output} {credential : Credential}
    (hmem : (o, credential) ∈ served) {t : Table}
    (ht : t ∈ plan.sinkTables secrets settings o credential) :
    t ∈ plan.tables secrets settings served := by
  refine List.mem_flatten.2 ⟨plan.sinkTables secrets settings o credential, ?_, ht⟩
  exact List.mem_append_right _ (List.mem_append_right _ (List.mem_append_right _
    (List.mem_map.2 ⟨(o, credential), hmem, rfl⟩)))

/-- A table of assignments is read by its name and its keys. -/
theorem Sound.assigned_ofEntries (h : plan.Sound) (hs : plan.served secrets = .ok served)
    {comment : Option String} {name key : String} {entries : List (String × String)}
    (ht : Table.ofEntries comment name entries ∈ plan.tables secrets settings served)
    (hk : ' ' ∉ key.toList) (he : ∀ e ∈ entries, ' ' ∉ e.1.toList) :
    assigned key (below name (Text.lines (writeTables (plan.tables secrets settings served)))) =
      (entries.filter (·.1 = key)).map Prod.snd :=
  (assigned_below (h.tables_proper hs) (h.names_nodup hs settings) ht key).trans
    (assigned_map_assignment hk he)

/-- No key has a blank in it. -/
theorem blank_notMem_key (plan : Plan) (settings : Settings) (o : Output)
    (credential : Credential) :
    (∀ e ∈ plan.sinkEntries o ++ credential.ownEntries settings, ' ' ∉ e.1.toList) ∧
      ∀ e ∈ credential.entries settings, ' ' ∉ e.1.toList := by
  have hentries := credential.blank_notMem_entries settings
  have hown : credential.ownEntries settings ⊆ credential.entries settings := by
    cases credential <;> simp [Credential.ownEntries]
  have hsink : ∀ e ∈ plan.sinkEntries o, ' ' ∉ e.1.toList := by
    unfold sinkEntries Output.targetEntries
    cases o.type <;> simp
  exact ⟨List.forall_mem_append.2 ⟨hsink, fun e he => hentries e (hown he)⟩, hentries⟩

/-- What the table of a sink assigns to a key. -/
theorem Sound.assigned_sink (h : plan.Sound) (hs : plan.served secrets = .ok served) {o : Output}
    {credential : Credential} (hmem : (o, credential) ∈ served) {key : String}
    (hk : ' ' ∉ key.toList) :
    assigned key (below ("sinks." ++ o.id)
        (Text.lines (writeTables (plan.tables secrets settings served)))) =
      ((plan.sinkEntries o ++ credential.ownEntries settings).filter (·.1 = key)).map Prod.snd :=
  h.assigned_ofEntries hs (mem_tables_of_mem_served hmem List.mem_cons_self) hk
    (plan.blank_notMem_key settings o credential).1

/-- A credential adds nothing but the path of a file with credentials. -/
theorem Sound.assigned_target (h : plan.Sound) (hs : plan.served secrets = .ok served) {o : Output}
    {credential : Credential} (hmem : (o, credential) ∈ served) {key : String}
    (hk : ' ' ∉ key.toList) (hpath : key ≠ "credentials_path") :
    assigned key (below ("sinks." ++ o.id)
        (Text.lines (writeTables (plan.tables secrets settings served)))) =
      ((plan.sinkEntries o).filter (·.1 = key)).map Prod.snd := by
  have hown : (credential.ownEntries settings).filter (·.1 = key) = [] := by
    cases credential with
    | cloudIam => simpa [Credential.ownEntries, Credential.entries] using hpath.symm
    | _ => rfl
  rw [h.assigned_sink hs hmem hk, List.filter_append, hown, List.append_nil]

/-- Only a credential adds this. -/
theorem Sound.assigned_credentialsPath (h : plan.Sound) (hs : plan.served secrets = .ok served)
    {o : Output} {credential : Credential} (hmem : (o, credential) ∈ served) :
    assigned "credentials_path" (below ("sinks." ++ o.id)
        (Text.lines (writeTables (plan.tables secrets settings served)))) =
      (credential.ownEntries settings).map Prod.snd := by
  have htarget : (plan.sinkEntries o).filter (·.1 = "credentials_path") = [] := by
    unfold sinkEntries Output.targetEntries
    cases o.type <;> simp
  have hown : (credential.ownEntries settings).filter (·.1 = "credentials_path") =
      credential.ownEntries settings := by
    cases credential <;> simp [Credential.ownEntries, Credential.entries]
  rw [h.assigned_sink hs hmem (by simp), List.filter_append, htarget, hown, List.nil_append]

/-- What the table for a user name and a password assigns to a key. -/
theorem Sound.assigned_auth (h : plan.Sound) (hs : plan.served secrets = .ok served) {o : Output}
    {credential : Credential} (hmem : (o, credential) ∈ served) (hkind : credential.kind = .basic)
    {key : String} (hk : ' ' ∉ key.toList) :
    assigned key (below ("sinks." ++ o.id ++ ".auth")
        (Text.lines (writeTables (plan.tables secrets settings served)))) =
      ((credential.entries settings).filter (·.1 = key)).map Prod.snd := by
  have hname : "sinks." ++ o.id ++ ".auth" = "sinks." ++ o.id ++ "." ++ "auth" := by
    simp [← String.toList_inj]
  have htable : Credential.basicSubTable o.id (credential.entries settings) ∈
      plan.sinkTables secrets settings o credential := by
    cases credential with
    | basic => simp [sinkTables, Credential.tables]
    | _ => cases hkind
  rw [hname]
  exact h.assigned_ofEntries hs (mem_tables_of_mem_served hmem htable) hk
    (plan.blank_notMem_key settings o credential).2

end Plan

/-- **A configuration can be read back.** For every output that pipelines name, the table of its
sink says what is declared of it, and what its secret stores where that is written down. -/
theorem Topology.recorded {t : Topology} {secrets : Secrets} {settings : Settings} {text : String}
    (h : t.configuration secrets settings = .ok text) {o : Output} (ho : o ∈ t.allOutputs)
    (hn : ∃ p ∈ t.pipelines, o.name ∈ p.outputs) :
    ∃ credential, o.credential secrets = .ok credential ∧
      t.Recorded secrets settings o credential text := by
  obtain ⟨plan, served, hplan, hs, rfl⟩ := configuration_eq_ok_iff.1 h
  have hsound := Plan.sound_of_resolve hplan
  obtain ⟨credential, hcredential, hmem⟩ :=
    Plan.exists_mem_served hs ((mem_referenced_iff hplan).2 ⟨ho, hn⟩)
  obtain ⟨hurl, hblock⟩ := (wellFormed_of_resolve hplan).exists_target ho
  have hreaders : plan.readers o = t.readers o.name :=
    (isPlan_of_resolve hplan).pipelines.map_id_filter o.name
  refine ⟨credential, hcredential, {
    inputs := ?_
    endpoint := fun htype => ?_
    uri := fun htype => ?_
    googleCloudLogging := fun htype => ?_
    credentialsPath := fun hkind => ?_
    noCredentialsPath := fun hkind => ?_
    login := fun hkind hstyle => ?_ }⟩
  · rw [arraysAt, hsound.assigned_target hs hmem (by simp) (by simp), Plan.sinkEntries,
      Output.targetEntries]
    cases o.type <;> simp [array?_array, hreaders]
  · obtain ⟨url, hu⟩ := hurl (by rcases htype with htype | htype <;> rw [htype] <;> rfl)
    refine ⟨url, hu, ?_⟩
    rw [textsAt, hsound.assigned_target hs hmem (by simp) (by simp), Plan.sinkEntries,
      Output.targetEntries]
    rcases htype with htype | htype <;> simp [htype, hu, string?_quote]
  · obtain ⟨url, hu⟩ := hurl (by rw [htype]; rfl)
    refine ⟨url, hu, ?_⟩
    rw [textsAt, hsound.assigned_target hs hmem (by simp) (by simp), Plan.sinkEntries,
      Output.targetEntries]
    simp [htype, hu, string?_quote]
  · obtain ⟨block, hb⟩ := hblock htype
    refine ⟨block, hb, ?_, ?_⟩
    all_goals
      rw [textsAt, hsound.assigned_target hs hmem (by simp) (by simp), Plan.sinkEntries,
        Output.targetEntries]
      simp [htype, hb, string?_quote]
  · cases credential with
    | cloudIam secret path =>
      refine ⟨path, ?_, Output.stored_of_credential hcredential⟩
      rw [textsAt, hsound.assigned_credentialsPath hs hmem]
      simp [Credential.ownEntries, Credential.entries, string?_quote]
    | _ => cases hkind
  · rw [textsAt, hsound.assigned_credentialsPath hs hmem]
    cases credential with
    | cloudIam => exact absurd rfl hkind
    | _ => rfl
  · cases credential with
    | basic secret username password =>
      refine ⟨username, password, ?_, ?_, Output.stored_of_credential hcredential⟩
      all_goals
        rw [textsAt, hsound.assigned_auth hs hmem hkind (by simp)]
        simp [Credential.entries, Credential.secretValue, hstyle, string?_quote]
    | _ => cases hkind

/-- An output of which the name and the url hold quotes, line breaks, a header and a field of a
template. -/
def inscribedOutput : Output where
  name := "Web \"1\""
  id := "web__1_"
  type := .http
  url := some "http://ü/\n[sinks.x]\n  uri = \"\x7b\x7b id \x7d\x7d\\"
  secret := some "login"
  googleCloudLogging := none

/-- Two pipelines to this output, one of them without a name. -/
def inscribed : Topology where
  pipelines :=
    [{ inputs := ["audit"], outputs := ["Web \"1\""] },
      { name := "Größe", inputs := ["application"], outputs := ["Web \"1\""] }]
  outputs :=
    [{ name := inscribedOutput.name, type := .http, url := inscribedOutput.url,
        secret := inscribedOutput.secret }]

/-- The plan of this topology. -/
def inscribedPlan : Plan where
  pipelines :=
    [⟨"pipeline_0", "pipeline_0", [.audit], ["Web \"1\""]⟩,
      ⟨"Größe", "gr__e", [.application], ["Web \"1\""]⟩]
  outputs := (∅ : Outputs).insert "Web \"1\"" inscribedOutput

/-- A user name with a quote, and a password with a line break. -/
def inscribedSecrets : Secrets := (∅ : Secrets).insert "login" <| (∅ : Secret)
  |>.insert SecretKey.username "a\"".toUTF8
  |>.insert SecretKey.password "\n[é]".toUTF8

/-- All of it is read as it was declared. -/
theorem recorded_inscribed :
    ∃ text, inscribed.configuration inscribedSecrets ⟨.inline, "/s", 600⟩ = .ok text ∧
      inscribedOutput ∈ inscribed.allOutputs ∧
      (∃ p ∈ inscribed.pipelines, inscribedOutput.name ∈ p.outputs) ∧
      arraysAt "sinks.web__1_" "inputs" text = [some ["pipeline_0", "gr__e"]] ∧
      textsAt "sinks.web__1_" "uri" text =
        [some "http://ü/\n[sinks.x]\n  uri = \"\x7b\x7b id \x7d\x7d\\"] ∧
      textsAt "sinks.web__1_" "credentials_path" text = [] ∧
      textsAt "sinks.web__1_.auth" "user" text = [some "a\""] ∧
      textsAt "sinks.web__1_.auth" "password" text = [some "\n[é]"] := by
  have hresolve : inscribed.resolve = .ok inscribedPlan := by decide +kernel
  have hserved : ∃ served, inscribedPlan.served inscribedSecrets = .ok served ∧
      served.map (·.2.kind) = [.basic] := map_eq_ok_iff.1 (by decide +kernel)
  obtain ⟨served, hs, _⟩ := hserved
  obtain ⟨text, htext⟩ :
      ∃ text, inscribed.configuration inscribedSecrets ⟨.inline, "/s", 600⟩ = .ok text :=
    ⟨_, Topology.configuration_eq_ok_iff.2 ⟨_, served, hresolve, hs, rfl⟩⟩
  have hall : inscribedOutput ∈ inscribed.allOutputs := by decide +kernel
  have hnamed : ∃ p ∈ inscribed.pipelines, inscribedOutput.name ∈ p.outputs := by decide +kernel
  obtain ⟨credential, hcredential, hrecorded⟩ := Topology.recorded htext hall hnamed
  have hkind : credential.kind = .basic :=
    (Output.kind_of_credential hcredential).trans (by decide +kernel)
  have hstored :
      inscribedOutput.stored? inscribedSecrets SecretKey.username = some "a\"".toUTF8 ∧
        inscribedOutput.stored? inscribedSecrets SecretKey.password = some "\n[é]".toUTF8 := by
    decide +kernel
  have hreaders : inscribed.readers inscribedOutput.name = ["pipeline_0", "gr__e"] := by
    decide +kernel
  have hinputs := hrecorded.inputs
  obtain ⟨_, hurl, huri⟩ := hrecorded.uri rfl
  obtain ⟨username, password, huser, hpassword, husername, hpassword'⟩ :=
    hrecorded.login hkind rfl
  rw [hstored.1, Option.some.injEq] at husername
  rw [hstored.2, Option.some.injEq] at hpassword'
  rw [← String.toByteArray_inj.1 husername] at huser
  rw [← String.toByteArray_inj.1 hpassword'] at hpassword
  cases hurl
  rw [hreaders] at hinputs
  have hpath := hrecorded.noCredentialsPath (by rw [hkind]; decide)
  exact ⟨text, htext, hall, hnamed, hinputs, huri, hpath, huser, hpassword⟩

end LogForwarding
