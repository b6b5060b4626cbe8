/-
# The headers of a configuration

The lines of a configuration that begin with a bracket are the headers of its
tables: those of the sources, of the transforms, and of the sinks with the
tables that their credentials need. They are made from a small part of what is
given: the ids and inputs of the pipelines, and of each output its id, the kind
of its credential, and whether its secret holds trusted certificates
(`Outline`). Urls, projects, values of secrets and directories may hold what
they like, line breaks and brackets included: none of it becomes a header.

Key definitions: `Text.headers`, `sinkHeaders`, `Outline.headers`,
`Plan.Headed`.
Key theorems: `Plan.Sound.headers_eq`, `Topology.headed_configuration`.
-/
import LogForwarding.Proofs.Document.Names
import LogForwarding.Proofs.Wiring

namespace LogForwarding

open Toml

/-- The lines of a text that begin as headers do. -/
def Text.headers (text : String) : List String := (Text.lines text).filter isHeader

/-- The headers of a sink: its own, and those of the tables that follow for its credential and for
trusted certificates. -/
def sinkHeaders (id : String) (kind : Credential.Kind) (trusted : Bool) : List String :=
  ("[sinks." ++ id ++ "]") ::
    ((if kind = .basic then ["[sinks." ++ id ++ ".auth]"] else []) ++
      if kind = .mutualTls ∨ trusted then ["[sinks." ++ id ++ ".tls]"] else [])

/-- The part of a plan and its secrets that headers are made from. -/
structure Outline where
  /-- The ids of the pipelines, with their inputs. -/
  pipelines : List (String × List Input)
  /-- The ids of the outputs that pipelines name, each with the kind of its credential and whether
  its secret holds trusted certificates. -/
  sinks : List (String × Credential.Kind × Bool)
  deriving DecidableEq

/-- The headers, made from these alone. -/
def Outline.headers (outline : Outline) : List String :=
  let inputs := outline.pipelines.flatMap Prod.snd
  (NodeLog.all.filter fun log => inputs.any (log ∈ ·.logs)).map
      (fun log => "[sources." ++ log.id ++ "]") ++
    ((if inputs.any Input.usesContainers then [routeId] else []) ++
        (Input.all.filter (· ∈ inputs)).map Input.name ++
        outline.pipelines.map Prod.fst).map (fun id => "[transforms." ++ id ++ "]") ++
    outline.sinks.flatMap fun (id, kind, trusted) => sinkHeaders id kind trusted

namespace Plan

variable {plan : Plan} {secrets : Secrets} {settings : Settings}
  {served : List (Output × Credential)}

/-- The outline of a plan. -/
def outline (plan : Plan) (secrets : Secrets) : Outline where
  pipelines := plan.pipelines.map fun p => (p.id, p.inputs)
  sinks := plan.referenced.map fun o =>
    (o.id, o.kind secrets, o.holds secrets SecretKey.trustedCa)

/-! ### Headers of places -/

theorem header_source (id : String) :
    header (Place.source id).name = "[sources." ++ id ++ "]" := by
  simp [header, Place.name, ← String.toList_inj]

theorem header_transform (id : String) :
    header (Place.transform id).name = "[transforms." ++ id ++ "]" := by
  simp [header, Place.name, ← String.toList_inj]

theorem header_sink (id : String) : header (Place.sink id).name = "[sinks." ++ id ++ "]" := by
  simp [header, Place.name, ← String.toList_inj]

theorem header_auth (sinkId : String) :
    header (Place.table sinkId "auth").name = "[sinks." ++ sinkId ++ ".auth]" := by
  simp [header, Place.name, ← String.toList_inj]

theorem header_tls (sinkId : String) :
    header (Place.table sinkId "tls").name = "[sinks." ++ sinkId ++ ".tls]" := by
  simp [header, Place.name, ← String.toList_inj]

theorem map_header_sinkPlaces (secrets : Secrets) (o : Output) :
    (sinkPlaces secrets o).map (header ·.name) =
      sinkHeaders o.id (o.kind secrets) (o.holds secrets SecretKey.trustedCa) := by
  rw [sinkPlaces, sinkHeaders, List.map_cons, header_sink, Credential.Kind.suffixes]
  split_ifs <;> simp [header_auth, header_tls]

/-- The headers of the places, section by section. -/
theorem map_header_places (plan : Plan) (secrets : Secrets) :
    (plan.places secrets).map (header ·.name) =
      plan.usedLogs.map (fun log => "[sources." ++ log.id ++ "]") ++
        plan.transformIds.map (fun id => "[transforms." ++ id ++ "]") ++
        plan.referenced.flatMap fun o =>
          sinkHeaders o.id (o.kind secrets) (o.holds secrets SecretKey.trustedCa) := by
  simp only [places, List.map_append, List.map_map, List.map_flatMap, map_header_sinkPlaces,
    Function.comp_def, header_source, header_transform, List.append_assoc]

theorem headers_outline (plan : Plan) (secrets : Secrets) :
    (plan.outline secrets).headers = (plan.places secrets).map (header ·.name) := by
  have hinputs : (plan.outline secrets).pipelines.flatMap Prod.snd =
      plan.pipelines.flatMap Pipeline.inputs := by
    rw [outline, List.flatMap_map]
  have hlogs : (NodeLog.all.filter fun log =>
      (plan.pipelines.flatMap Pipeline.inputs).any (log ∈ ·.logs)) = plan.usedLogs :=
    List.filter_congr fun log _ => by
      rw [Bool.eq_iff_iff]
      simp [Pipeline.logs, log.mem_all]
  have hcontainers : (plan.pipelines.flatMap Pipeline.inputs).any Input.usesContainers =
      plan.usesContainers := List.any_flatMap
  have hmarkings : Input.all.filter (· ∈ plan.pipelines.flatMap Pipeline.inputs) =
      plan.usedInputs :=
    List.filter_congr fun input _ => by
      rw [Bool.eq_iff_iff]
      simp
  have hpipelines : (plan.outline secrets).pipelines.map Prod.fst =
      plan.pipelines.map Pipeline.id := List.map_map
  have hsinks : ((plan.outline secrets).sinks.flatMap fun (id, kind, trusted) =>
      sinkHeaders id kind trusted) = plan.referenced.flatMap fun o =>
        sinkHeaders o.id (o.kind secrets) (o.holds secrets SecretKey.trustedCa) := by
    rw [outline, List.flatMap_map]
  rw [map_header_places, Outline.headers, hsinks, hpipelines, hinputs]
  simp only [hlogs, hcontainers, hmarkings, transformIds]

namespace Sound

/-- **The headers of a configuration are those of the places of its tables.** -/
theorem headers_eq (h : plan.Sound) (hs : plan.served secrets = .ok served) (settings : Settings) :
    Text.headers (writeTables (plan.tables secrets settings served)) =
      (plan.places secrets).map (header ·.name) := by
  have hnames := congrArg (List.map header) (map_name_tables hs settings)
  rw [List.map_map, List.map_map] at hnames
  exact (headers_writeTables (h.tables_proper hs)).trans hnames

/-- A header holds a name between brackets, which is spelled with the characters of component ids
and points. -/
theorem isIdChar_of_mem_header (h : plan.Sound) {p : Place} (hp : p ∈ plan.places secrets)
    {c : Char} (hc : c ∈ (header p.name).toList) : isIdChar c ∨ c ∈ ['[', '.', ']'] := by
  obtain ⟨hmiddle, hlast⟩ := h.spelled_of_mem_places hp
  have hsort : ∀ c ∈ p.sort.toList, isIdChar c := by
    rw [← List.all_eq_true]
    cases p <;> simp only [Place.sort] <;> decide +kernel
  simp only [header, String.toList_append, Place.toList_name, List.mem_append, List.mem_cons] at hc
  rcases hc with (hc | hc | rfl | hc | hc) | hc
  · exact .inr (by simp [show c = '[' by simpa using hc])
  · exact .inl (hsort c hc)
  · exact .inr (by simp)
  · exact .inl (hmiddle c hc)
  · cases hl : p.last? with
    | none => simp [hl] at hc
    | some last =>
      rw [hl, Option.elim_some, List.mem_cons] at hc
      exact hc.elim (fun hpoint => .inr (by simp [hpoint])) fun hc => .inl (hlast last hl c hc)
  · exact .inr (by simp [show c = ']' by simpa using hc])

end Sound

/-! ### Configurations and their headers -/

/-- The headers of a configuration with these elements. -/
structure Headed (plan : Plan) (secrets : Secrets) (elements : List Element)
    (headers : List String) : Prop where
  /-- They are those of the sources and of the transforms, in the order of the elements, and then
  those of the outputs that pipelines name. -/
  sections : ∃ sources transforms : List String,
    (elements.filter (·.part = .sources)).map Element.id? = sources.map some ∧
    (elements.filter (·.part = .transforms)).map Element.id? = transforms.map some ∧
    headers = sources.map (fun id => "[sources." ++ id ++ "]") ++
      transforms.map (fun id => "[transforms." ++ id ++ "]") ++
      plan.referenced.flatMap fun o =>
        sinkHeaders o.id (o.kind secrets) (o.holds secrets SecretKey.trustedCa)
  /-- The outputs stand in the order in which pipelines first name them. -/
  firstSeen : FirstSeen (plan.pipelines.flatMap Pipeline.outputs) (plan.referenced.map Output.name)
  /-- Each has a credential of the kind that its headers show. -/
  kind : ∀ o ∈ plan.referenced, ∃ credential,
    o.credential secrets = .ok credential ∧ credential.kind = o.kind secrets
  /-- No header stands twice. -/
  nodup : headers.Nodup
  /-- They follow from the outline. -/
  outline : headers = (plan.outline secrets).headers
  /-- They hold no other characters than those of component ids, brackets and points. -/
  spelled : ∀ line ∈ headers, ∀ c ∈ line.toList, isIdChar c ∨ c ∈ ['[', '.', ']']

end Plan

/-- **A configuration has the headers of its outline.** They are those of its sources and
transforms and of the sinks with the tables that their credentials need, no two are equal, and
what urls, secrets and directories hold has no part in them. -/
theorem Topology.headed_configuration {t : Topology} {secrets : Secrets} {settings : Settings}
    {text : String} (h : t.configuration secrets settings = .ok text) :
    ∃ plan elements, t.resolve = .ok plan ∧ plan.elements secrets settings = .ok elements ∧
      plan.Headed secrets elements (Text.headers text) := by
  obtain ⟨plan, served, hplan, hs, rfl⟩ := configuration_eq_ok_iff.1 h
  have hsound := Plan.sound_of_resolve hplan
  have hheaders := hsound.headers_eq hs settings
  refine ⟨plan, plan.sequence secrets settings served, hplan, hsound.elements_eq_ok hs, ?_⟩
  refine {
    sections := ⟨plan.usedLogs.map NodeLog.id, plan.transformIds, ?_, ?_, ?_⟩
    firstSeen := hsound.firstSeen_referenced
    kind := fun o ho => ?_
    nodup := ?_
    outline := hheaders.trans (Plan.headers_outline plan secrets).symm
    spelled := fun line hline c hc => ?_ }
  · simp [Plan.filter_sources_sequence, Function.comp_def]
  · rw [Plan.filter_transforms_sequence, Plan.sharedTransforms, Plan.transformIds]
    split_ifs <;> simp [Function.comp_def]
  · rw [hheaders, Plan.map_header_places, List.map_map]
    rfl
  · obtain ⟨credential, hcredential, _⟩ := Plan.exists_mem_served hs ho
    exact ⟨credential, hcredential, Output.kind_of_credential hcredential⟩
  · have hnames := hsound.names_nodup hs settings
    rw [Plan.map_name_tables hs] at hnames
    rw [hheaders, ← Function.comp_def header, ← List.map_map]
    exact hnames.map header_injective
  · rw [hheaders] at hline
    obtain ⟨place, hplace, rfl⟩ := List.mem_map.1 hline
    exact hsound.isIdChar_of_mem_header hplace hc

/-- A topology of which the url, the names of the secret and of the pipeline look like headers. -/
def disguised : Topology where
  pipelines := [{ name := "\n[sources.x]", inputs := ["audit"], outputs := ["web"] }]
  outputs :=
    [{ name := "web", type := .http, url := some "\"\n[sinks.y]\n", secret := some "\n[a]" }]

/-- A secret with values that look like headers, and trusted certificates. -/
def disguisedSecrets : Secrets := (∅ : Secrets).insert "\n[a]" <| (∅ : Secret)
  |>.insert SecretKey.username "\n[sinks.web.tls]".toUTF8
  |>.insert SecretKey.password "\"]\n[".toUTF8
  |>.insert SecretKey.trustedCa "\n[b]".toUTF8

/-- The plan of this topology. -/
def disguisedPlan : Plan where
  pipelines := [⟨"\n[sources.x]", "__sources_x_", [.audit], ["web"]⟩]
  outputs := (∅ : Outputs)
    |>.insert "web" ⟨"web", "web", .http, some "\"\n[sinks.y]\n", some "\n[a]", none⟩

/-- The headers are there, and nothing that looks like one. -/
theorem headed_disguised :
    ∃ text, disguised.configuration disguisedSecrets ⟨.inline, "\n[c]", 600⟩ = .ok text ∧
      Text.headers text =
        ["[sources.host_audit_logs]", "[sources.k8s_audit_logs]", "[sources.openshift_audit_logs]",
          "[sources.ovn_audit_logs]", "[transforms.audit]", "[transforms.__sources_x_]",
          "[sinks.web]", "[sinks.web.auth]", "[sinks.web.tls]"] := by
  have hresolve : disguised.resolve = .ok disguisedPlan := by decide +kernel
  have hserved : ∃ served, disguisedPlan.served disguisedSecrets = .ok served ∧
      served.length = 1 := map_eq_ok_iff.1 (by decide +kernel)
  obtain ⟨served, hs, _⟩ := hserved
  obtain ⟨text, htext⟩ : ∃ text, disguised.configuration disguisedSecrets ⟨.inline, "\n[c]", 600⟩ =
      .ok text := ⟨_, Topology.configuration_eq_ok_iff.2 ⟨_, served, hresolve, hs, rfl⟩⟩
  obtain ⟨plan, elements, hplan, _, hheaded⟩ := Topology.headed_configuration htext
  rw [hresolve, Except.ok.injEq] at hplan
  exact ⟨text, htext, hheaded.outline.trans (hplan ▸ by decide +kernel)⟩

end LogForwarding
