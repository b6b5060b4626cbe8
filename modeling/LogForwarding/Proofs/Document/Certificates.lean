/-
# The certificates of a sink

A sink names the files of its client certificate, and of the certificates that
it trusts. The trusted ones stand among the lines of the client certificate, in
a table of their own, or in one after the credential; either way they are named
once, in the table for TLS, if the secret holds them, and not at all if it does
not. So no sink leaves out a check of the server, or has a key twice, because of
the way its credential is written.

The lines of a sink are those from its header up to the header of the next
sink. They are what the tables of the sink alone are written as.

Key definitions: `Text.ofSink`, `Toml.textsUnder`, `Output.NamesFile`,
`Output.NamesCertificates`, `Credential.tlsEntries`.
Key theorems: `Toml.textsUnder_writeTables`, `Plan.Sound.ofSink_writeTables`,
`Plan.textsUnder_sinkLines`, `Topology.certificates_named`.
-/
import LogForwarding.Proofs.Document.ReadBack
import LogForwarding.Proofs.Document.Styles
import LogForwarding.Proofs.Document.Tally

namespace LogForwarding

open Toml

/-! ### The lines of a sink -/

/-- The line is the header of a sink with another id. An id holds no point; the headers of the
other tables of a sink do after `[sinks.`. -/
def Toml.opensOtherSink (id line : String) : Bool :=
  (idIn? "sinks" line).any fun other => other ≠ id ∧ '.' ∉ other.toList

/-- The lines of the sink: from its header up to that of the next one, or to the end. -/
def Text.ofSink (id text : String) : List String :=
  ((lines text).dropWhile (· != header ("sinks." ++ id))).takeWhile (!opensOtherSink id ·)

/-- The texts that lines assign to the key, each with the header that its line stands under; `none`
for a value that is not a text. -/
def Toml.textsUnder (key : String) (lines : List (Option String × String)) :
    List (Option String × Option String) :=
  lines.flatMap fun (above, line) => (assigned key [line]).map fun value => (above, string? value)

/-! ### What is declared -/

/-- The lines of a sink name a file if it is needed: once, in the table for TLS, as the file that
holds the value under `key` of the output's secret. -/
structure Output.NamesFile (o : Output) (settings : Settings)
    (lines : List (Option String × String)) (label key : String) (needed : Prop) : Prop where
  /-- The file that is needed is named. -/
  named : needed → ∃ name, o.secret = some name ∧
    textsUnder label lines =
      [(some ("[sinks." ++ o.id ++ ".tls]"), some (settings.secretFile name key))]
  /-- No other is. -/
  absent : ¬ needed → textsUnder label lines = []

/-- The files that the lines of a sink name. -/
structure Output.NamesCertificates (o : Output) (secrets : Secrets) (settings : Settings)
    (credential : Credential) (lines : List (Option String × String)) : Prop where
  /-- They begin with the header of the sink. -/
  opens : lines.head? = some (some ("[sinks." ++ o.id ++ "]"), "[sinks." ++ o.id ++ "]")
  /-- Trusted certificates are named, if the secret holds them. -/
  trustedCa : o.NamesFile settings lines "ca_file" SecretKey.trustedCa
    (o.holds secrets SecretKey.trustedCa)
  /-- The client certificate is, if it is the credential. -/
  certificate : o.NamesFile settings lines "crt_file" SecretKey.certificate
    (credential.kind = .mutualTls)
  /-- So is its private key. -/
  privateKey : o.NamesFile settings lines "key_file" SecretKey.privateKey
    (credential.kind = .mutualTls)

/-! ### Texts in tables -/

namespace Toml

variable {key : String}

/-- The texts that the table assigns to the key. -/
def Table.texts (key : String) (t : Table) : List (Option String × Option String) :=
  (assigned key t.body).map fun value => (some (header t.name), string? value)

theorem Table.texts_ofEntries (hk : ' ' ∉ key.toList) {comment : Option String} {name : String}
    {entries : List (String × String)} (he : ∀ e ∈ entries, ' ' ∉ e.1.toList) :
    (Table.ofEntries comment name entries).texts key =
      (entries.filter (·.1 = key)).map fun e => (some (header name), string? e.2) := by
  have hassigned : assigned key (Table.ofEntries comment name entries).body =
      (entries.filter (·.1 = key)).map Prod.snd := assigned_map_assignment hk he
  rw [Table.texts, hassigned, List.map_map]
  rfl

/-- A table in which the key is not assigned. -/
theorem Table.texts_ofEntries_eq_nil (hk : ' ' ∉ key.toList) {comment : Option String}
    {name : String} {entries : List (String × String)}
    (he : ∀ e ∈ entries, ' ' ∉ e.1.toList ∧ e.1 ≠ key) :
    (Table.ofEntries comment name entries).texts key = [] := by
  have hnone : entries.filter (·.1 = key) = [] :=
    List.filter_eq_nil_iff.2 fun e hmem => by simp [(he e hmem).2]
  rw [texts_ofEntries hk fun e hmem => (he e hmem).1, hnone]
  rfl

theorem textsUnder_append (lines rest : List (Option String × String)) :
    textsUnder key (lines ++ rest) = textsUnder key lines ++ textsUnder key rest :=
  List.flatMap_append

/-- Lines under one header assign what they assign without it. -/
theorem textsUnder_map (above : Option String) (lines : List String) :
    textsUnder key (lines.map (above, ·)) =
      (assigned key lines).map fun value => (above, string? value) := by
  induction lines with
  | nil => rfl
  | cons line lines ih =>
    have hcons : assigned key (line :: lines) = assigned key [line] ++ assigned key lines := by
      rw [← List.singleton_append, assigned, List.filterMap_append]
      rfl
    rw [List.map_cons, textsUnder, List.flatMap_cons, ← textsUnder, ih, hcons, List.map_append]

/-- A line that does not begin with a blank assigns nothing. -/
theorem textsUnder_map_of_head (above : Option String) {lines : List String}
    (h : ∀ line ∈ lines, line.toList.head? ≠ some ' ') :
    textsUnder key (lines.map (above, ·)) = [] := by
  have hnil : assigned key ([] ++ lines) = assigned key [] := assigned_append_of_head h
  rw [textsUnder_map, ← List.nil_append lines, hnil]
  rfl

theorem textsUnder_blank (above : Option String) : textsUnder key [(above, "")] = [] := by
  have hblank : textsUnder key ([""].map (above, ·)) = [] :=
    textsUnder_map_of_head above (by simp)
  exact hblank

variable {ts : List Table}

/-- What tables assign stands under their headers, whatever is above the first one. -/
theorem textsUnder_placed (h : ∀ t ∈ ts, t.Proper) (above : Option String) :
    textsUnder key (placed above (ts.flatMap Table.block ++ [""])) = ts.flatMap (·.texts key) := by
  induction ts generalizing above with
  | nil => exact textsUnder_blank above
  | cons t ts ih =>
    obtain ⟨ht, hts⟩ := List.forall_mem_cons.1 h
    have habove : textsUnder key (t.above.map (above, ·)) = [] :=
      textsUnder_map_of_head above fun line hl => (Table.mem_above hl).2
    have hheader : textsUnder key ([header t.name].map (some (header t.name), ·)) = [] :=
      textsUnder_map_of_head _ (by simp [header])
    rw [List.flatMap_cons, List.append_assoc, placed_block ht, textsUnder_append, habove,
      List.nil_append, ← List.singleton_append, textsUnder_append, textsUnder_append, ih hts,
      textsUnder_map, List.flatMap_cons, Table.texts]
    exact congrArg (· ++ _) hheader

/-- **The texts of a document are those of its tables**, each under the header of its table. -/
theorem textsUnder_writeTables (h : ∀ t ∈ ts, t.Proper) :
    textsUnder key (placed none (Text.lines (writeTables ts))) = ts.flatMap (·.texts key) := by
  cases ts with
  | nil => exact textsUnder_blank none
  | cons t ts =>
    -- The blank line above the first table is not one of the text.
    have hblank : ∀ line ∈ [""], isHeader line = false := by simp [isHeader]
    have hcons : "" :: Text.lines (writeTables (t :: ts)) =
        [""] ++ Text.lines (writeTables (t :: ts)) := rfl
    rw [← textsUnder_placed h none, ← cons_lines_writeTables (List.cons_ne_nil t ts) h, hcons,
      placed_append_of_not_isHeader hblank, textsUnder_append, List.map_singleton,
      textsUnder_blank, List.nil_append]

/-- Some tables can be cut out of a document, where the first one has no comment, if their lines and
those after them tell where to stop. -/
theorem cut_writeTables {before own after : List Table} {t : Table} {stop : String → Bool}
    (hproper : ∀ u ∈ before ++ t :: (own ++ after), u.Proper)
    (hnodup : ((before ++ t :: (own ++ after)).map Table.name).Nodup) (hcomment : t.comment = none)
    (hown : ∀ u ∈ t :: own, ∀ line ∈ u.block, stop line = false)
    (hafter : (after.flatMap Table.block ++ [""]).takeWhile (!stop ·) = [""]) :
    ((Text.lines (writeTables (before ++ t :: (own ++ after)))).dropWhile
        (· != header t.name)).takeWhile (!stop ·) =
      Text.lines (writeTables (t :: own)) := by
  have hblock : t.block = "" :: header t.name :: t.body := by
    simp [Table.block, Table.above, hcomment]
  have hrest : header t.name :: (t.body ++ ((own ++ after).flatMap Table.block ++ [""])) =
      ((t :: own).flatMap Table.block).tail ++ (after.flatMap Table.block ++ [""]) := by
    simp [hblock]
  have hkept : ∀ line ∈ ((t :: own).flatMap Table.block).tail, (!stop line) = true := by
    intro line hl
    obtain ⟨u, hu, hl⟩ := List.mem_flatMap.1 (List.mem_of_mem_tail hl)
    rw [hown u hu line hl]
    rfl
  have hproper' : ∀ u ∈ t :: own, u.Proper := fun u hu =>
    hproper u (List.mem_append_right _ (List.mem_append_left after hu))
  rw [dropWhile_writeTables hproper hnodup, hrest, List.takeWhile_append_of_pos hkept, hafter,
    lines_writeTables hproper']

end Toml

/-! ### The part of a document that is a sink -/

/-- Only a header can open another sink. -/
theorem opensOtherSink_of_not_isHeader {id line : String} (h : isHeader line = false) :
    opensOtherSink id line = false := by
  rw [opensOtherSink, Option.any_eq_false]
  intro other hother
  rw [isHeader_of_idIn? hother] at h
  cases h

theorem opensOtherSink_header {id : String} (p : Place) :
    opensOtherSink id (header p.name) = true ↔
      p.sort = "sinks" ∧ p.middle ++ p.last?.elim "" ("." ++ ·) ≠ id ∧
        '.' ∉ (p.middle ++ p.last?.elim "" ("." ++ ·)).toList := by
  have hsort : '.' ∉ "sinks".toList := by simp
  rw [opensOtherSink, idIn?_header hsort]
  split_ifs with hp <;> simp [hp]

namespace Plan

variable {plan : Plan} {secrets : Secrets} {settings : Settings}
  {served : List (Output × Credential)} {o : Output} {credential : Credential}

/-- No line of a sink opens another one. -/
theorem opensOtherSink_of_mem_block (hc : o.credential secrets = .ok credential)
    (ho : '\n' ∉ o.id.toList) {t : Table}
    (ht : t ∈ plan.sinkTables secrets settings o credential) {line : String} (hl : line ∈ t.block) :
    opensOtherSink o.id line = false := by
  simp only [Table.block, List.mem_append, List.mem_cons] at hl
  rcases hl with hl | rfl | hl
  · exact opensOtherSink_of_not_isHeader (Table.mem_above hl).1
  · have hname : t.name ∈ (sinkPlaces secrets o).map Place.name := by
      rw [← map_name_sinkTables settings hc]
      exact List.mem_map_of_mem ht
    obtain ⟨p, hp, hname⟩ := List.mem_map.1 hname
    rw [← hname, Bool.eq_false_iff, ne_eq, opensOtherSink_header]
    rcases List.mem_cons.1 hp with rfl | hp
    · simp [Place.middle, Place.last?]
    · obtain ⟨suffix, _, rfl⟩ := List.mem_map.1 hp
      simp [Place.middle, Place.last?]
  · have hproper := proper_sinkTables ho t ht
    exact opensOtherSink_of_not_isHeader (hproper.not_isHeader_of_mem_body hl)

/-- Sinks of other ids are cut off. -/
theorem takeWhile_sinks {id : String} {others : List (Output × Credential)}
    (h : ∀ s ∈ others, s.1.id ≠ id ∧ '.' ∉ s.1.id.toList) :
    ((others.flatMap fun s => plan.sinkTables secrets settings s.1 s.2).flatMap Table.block ++
      [""]).takeWhile (!opensOtherSink id ·) = [""] := by
  have hblank : (!opensOtherSink id "") = true := by
    rw [opensOtherSink_of_not_isHeader (by simp [isHeader])]
    rfl
  cases others with
  | nil => simp [hblank]
  | cons s others =>
    obtain ⟨hne, hpoint⟩ := h s List.mem_cons_self
    have hopens : opensOtherSink id (header ("sinks." ++ s.1.id)) = true := by
      have hplace : header (Place.sink s.1.id).name = header ("sinks." ++ s.1.id) := rfl
      rw [← hplace, opensOtherSink_header]
      simp [Place.sort, Place.middle, Place.last?, hne, hpoint]
    simp [sinkTables, Table.block, Table.above, Table.ofEntries, hblank, hopens]

/-- Sinks come last. -/
theorem tables_append (before after : List (Output × Credential)) :
    plan.tables secrets settings (before ++ after) = plan.tables secrets settings before ++
      after.flatMap fun s => plan.sinkTables secrets settings s.1 s.2 := by
  simp [tables, tableGroups, List.flatMap_def]

/-- The sinks after one have other ids. -/
theorem Sound.id_ne_of_after (h : plan.Sound) {before after : List (Output × Credential)}
    (hs : plan.served secrets = .ok (before ++ (o, credential) :: after)) :
    ∀ s ∈ after, s.1.id ≠ o.id := by
  have hids := h.referenced_ids_nodup
  rw [← (served_eq_ok_iff.1 hs).1, List.map_map, List.map_append, List.map_cons] at hids
  intro s hmem heq
  exact (List.nodup_cons.1 (List.nodup_append.1 hids).2.1).1 (List.mem_map.2 ⟨s, hmem, heq⟩)

/-- **A sink can be cut out of its document.** Its lines are those of its tables alone. -/
theorem Sound.ofSink_writeTables (h : plan.Sound) (hs : plan.served secrets = .ok served)
    (hmem : (o, credential) ∈ served) :
    Text.ofSink o.id (writeTables (plan.tables secrets settings served)) =
      Text.lines (writeTables (plan.sinkTables secrets settings o credential)) := by
  have hproper : ∀ t ∈ plan.tables secrets settings served, t.Proper := h.tables_proper hs
  have hnodup := h.names_nodup hs settings
  have hnewline := h.newline_notMem_id (mem_list_of_mem_served hs hmem)
  have hcredential := (served_eq_ok_iff.1 hs).2 _ hmem
  obtain ⟨before, after, rfl⟩ := List.append_of_mem hmem
  have hafter : ∀ s ∈ after, s.1.id ≠ o.id ∧ '.' ∉ s.1.id.toList := fun s hmem' =>
    ⟨h.id_ne_of_after hs s hmem',
      h.point_notMem_id (mem_list_of_mem_served hs (by simp [hmem']))⟩
  have hkept : ∀ t ∈ plan.sinkTables secrets settings o credential, ∀ line ∈ t.block,
      opensOtherSink o.id line = false := fun t ht line hl =>
    opensOtherSink_of_mem_block hcredential hnewline ht hl
  have hsink : plan.sinkTables secrets settings o credential =
      .ofEntries none ("sinks." ++ o.id) (plan.sinkEntries o ++ credential.ownEntries settings) ::
        credential.tables settings o.id (o.caSecret? secrets) := rfl
  rw [tables_append, List.flatMap_cons, hsink, List.cons_append] at hproper hnodup
  rw [Text.ofSink, tables_append, List.flatMap_cons, hsink, List.cons_append]
  rw [hsink] at hkept
  simpa only [Table.ofEntries] using
    cut_writeTables hproper hnodup rfl hkept (takeWhile_sinks hafter)

end Plan

/-! ### The files of a sink -/

namespace Credential

/-- The keys that name files with certificates. -/
def fileLabels : List String := ["ca_file", "crt_file", "key_file"]

theorem blank_notMem_of_mem_fileLabels {label : String} (hl : label ∈ fileLabels) :
    ' ' ∉ label.toList := by
  simp only [fileLabels, List.mem_cons, List.not_mem_nil, or_false] at hl
  rcases hl with rfl | rfl | rfl <;> simp

/-- The assignments of the table for TLS; there are none without such a table. -/
def tlsEntries (settings : Settings) (trustedCa : Option String) (credential : Credential) :
    List (String × String) :=
  match credential with
  | mutualTls .. => credential.entries settings
  | anonymous | basic .. | cloudIam .. => trustedCa.toList.flatMap (trustedCaEntries settings)

variable {settings : Settings} {label : String}

theorem texts_tlsSubTable (hl : label ∈ fileLabels) (sinkId : String)
    {entries : List (String × String)} (he : ∀ e ∈ entries, ' ' ∉ e.1.toList) :
    (tlsSubTable sinkId entries).texts label = (entries.filter (·.1 = label)).map
      fun e => (some ("[sinks." ++ sinkId ++ ".tls]"), string? e.2) := by
  have hheader : header ("sinks." ++ sinkId ++ "." ++ "tls") = "[sinks." ++ sinkId ++ ".tls]" :=
    Plan.header_tls sinkId
  rw [tlsSubTable, subTable, Table.texts_ofEntries (blank_notMem_of_mem_fileLabels hl) he, hheader]

/-- The table for a user name and a password names no files. -/
theorem texts_basicSubTable (hl : label ∈ fileLabels) (sinkId secret username password : String) :
    (basicSubTable sinkId (entries settings (basic secret username password))).texts label =
      [] := by
  have hother : ∀ e ∈ entries settings (basic secret username password), e.1 ∉ fileLabels := by
    simp [entries, fileLabels]
  refine Table.texts_ofEntries_eq_nil (blank_notMem_of_mem_fileLabels hl) fun e he => ?_
  exact ⟨blank_notMem_entries settings _ e he, fun heq => hother e he (heq ▸ hl)⟩

/-- Of the tables that follow that of a sink only the one for TLS names files. -/
theorem texts_tables (hl : label ∈ fileLabels) (sinkId : String) (trustedCa : Option String)
    (credential : Credential) :
    (credential.tables settings sinkId trustedCa).flatMap (·.texts label) =
      ((credential.tlsEntries settings trustedCa).filter (·.1 = label)).map
        fun e => (some ("[sinks." ++ sinkId ++ ".tls]"), string? e.2) := by
  have htrusted : (trustedCa.toList.map fun secret =>
      tlsSubTable sinkId (trustedCaEntries settings secret)).flatMap (·.texts label) =
        ((trustedCa.toList.flatMap (trustedCaEntries settings)).filter (·.1 = label)).map
          fun e => (some ("[sinks." ++ sinkId ++ ".tls]"), string? e.2) := by
    cases trustedCa with
    | none => rfl
    | some secret =>
      have he : ∀ e ∈ trustedCaEntries settings secret, ' ' ∉ e.1.toList := by
        simp [trustedCaEntries]
      simp [texts_tlsSubTable hl sinkId he]
  cases credential with
  | anonymous => exact htrusted
  | mutualTls secret caBundle =>
    rw [tables, List.flatMap_singleton,
      texts_tlsSubTable hl sinkId (blank_notMem_entries settings _), tlsEntries]
  | basic secret username password =>
    rw [tables, List.flatMap_cons, texts_basicSubTable hl, List.nil_append]
    exact htrusted
  | cloudIam => exact htrusted

end Credential

/-- A client certificate comes from the secret of the output, as trusted certificates do. -/
theorem Output.caSecret?_of_mutualTls {o : Output} {secrets : Secrets} {name : String}
    {caBundle : Bool} (h : o.credential secrets = .ok (.mutualTls name caBundle)) :
    o.secret = some name ∧ o.caSecret? secrets = if caBundle then some name else none := by
  obtain ⟨name', secret, hname, hsecret, _, hc⟩ :=
    (ofSecret?_of_credential h).resolve_left (by simp)
  simp only [Credential.kind, Credential.ofSecret?, Option.some.injEq, Credential.mutualTls.injEq]
    at hc
  obtain ⟨rfl, rfl⟩ := hc
  refine ⟨hname, ?_⟩
  rw [caSecret?, hname, Option.filter_some, hsecret]
  simp

namespace Plan

variable {plan : Plan} {secrets : Secrets} {settings : Settings} {o : Output}
  {credential : Credential} {label key : String}

/-- The lines of the tables of a sink, each with the header that it stands under. -/
def sinkLines (plan : Plan) (secrets : Secrets) (settings : Settings) (o : Output)
    (credential : Credential) : List (Option String × String) :=
  placed none (Text.lines (writeTables (plan.sinkTables secrets settings o credential)))

theorem head?_sinkLines (ho : '\n' ∉ o.id.toList) :
    (plan.sinkLines secrets settings o credential).head? =
      some (some ("[sinks." ++ o.id ++ "]"), "[sinks." ++ o.id ++ "]") := by
  have hheader : header ("sinks." ++ o.id) = "[sinks." ++ o.id ++ "]" := header_sink o.id
  rw [sinkLines, lines_writeTables (proper_sinkTables ho), ← hheader]
  simp [sinkTables, Table.ofEntries, Table.block, Table.above, placed, isHeader_header]

/-- The lines of a sink name files in the table for TLS only. -/
theorem textsUnder_sinkLines (ho : '\n' ∉ o.id.toList) (hl : label ∈ Credential.fileLabels) :
    textsUnder label (plan.sinkLines secrets settings o credential) =
      ((credential.tlsEntries settings (o.caSecret? secrets)).filter (·.1 = label)).map
        fun e => (some ("[sinks." ++ o.id ++ ".tls]"), string? e.2) := by
  have hother : ∀ e ∈ plan.sinkEntries o ++ credential.ownEntries settings,
      e.1 ∉ Credential.fileLabels := by
    refine List.forall_mem_append.2 ⟨?_, ?_⟩
    · unfold sinkEntries Output.targetEntries
      cases o.type <;> simp [Credential.fileLabels]
    · cases credential <;>
        simp [Credential.ownEntries, Credential.entries, Credential.fileLabels]
  have hsink : (Table.ofEntries none ("sinks." ++ o.id)
      (plan.sinkEntries o ++ credential.ownEntries settings)).texts label = [] := by
    refine Table.texts_ofEntries_eq_nil (Credential.blank_notMem_of_mem_fileLabels hl) ?_
    intro e he
    exact ⟨(plan.blank_notMem_key settings o credential).1 e he,
      fun heq => hother e he (heq ▸ hl)⟩
  rw [sinkLines, textsUnder_writeTables (proper_sinkTables ho), sinkTables, List.flatMap_cons,
    hsink, List.nil_append, Credential.texts_tables hl]

/-- Trusted certificates are named if the secret holds them. Which of the three ways they are
written in makes no difference. -/
theorem namesFile_trustedCa (h : o.credential secrets = .ok credential)
    (ho : '\n' ∉ o.id.toList) :
    o.NamesFile settings (plan.sinkLines secrets settings o credential) "ca_file"
      SecretKey.trustedCa (o.holds secrets SecretKey.trustedCa) := by
  have hentries : (credential.tlsEntries settings (o.caSecret? secrets)).filter
      (·.1 = "ca_file") =
        (o.caSecret? secrets).toList.flatMap (Credential.trustedCaEntries settings) := by
    cases credential with
    | mutualTls name caBundle =>
      rw [(Output.caSecret?_of_mutualTls h).2]
      cases caBundle <;>
        simp [Credential.tlsEntries, Credential.entries, Credential.trustedCaEntries]
    | _ => cases o.caSecret? secrets <;> simp [Credential.tlsEntries, Credential.trustedCaEntries]
  have hlabel : "ca_file" ∈ Credential.fileLabels := by simp [Credential.fileLabels]
  have hread : textsUnder "ca_file" (plan.sinkLines secrets settings o credential) = _ :=
    textsUnder_sinkLines ho hlabel
  rw [hentries] at hread
  rw [← Output.isSome_caSecret?]
  cases hca : o.caSecret? secrets with
  | none =>
    rw [hca] at hread
    exact ⟨by simp, fun _ => hread⟩
  | some name =>
    rw [hca] at hread
    refine ⟨fun _ => ⟨name, (Option.filter_eq_some_iff.1 hca).1, ?_⟩, by simp⟩
    simpa [Credential.trustedCaEntries, string?_quote] using hread

/-- The files of a client certificate are named if it is the credential. -/
theorem namesFile_client (h : o.credential secrets = .ok credential) (ho : '\n' ∉ o.id.toList)
    (hfile : (label, key) ∈
      [("crt_file", SecretKey.certificate), ("key_file", SecretKey.privateKey)]) :
    o.NamesFile settings (plan.sinkLines secrets settings o credential) label key
      (credential.kind = .mutualTls) := by
  simp only [List.mem_cons, Prod.mk.injEq, List.not_mem_nil, or_false] at hfile
  have hlabel : label ∈ Credential.fileLabels := by
    rcases hfile with ⟨rfl, _⟩ | ⟨rfl, _⟩ <;> simp [Credential.fileLabels]
  refine ⟨fun hkind => ?_, fun hkind => ?_⟩ <;> rw [textsUnder_sinkLines ho hlabel]
  · cases credential with
    | mutualTls name caBundle =>
      refine ⟨name, (Output.caSecret?_of_mutualTls h).1, ?_⟩
      rcases hfile with ⟨rfl, rfl⟩ | ⟨rfl, rfl⟩ <;> cases caBundle <;>
        simp [Credential.tlsEntries, Credential.entries, string?_quote]
    | _ => cases hkind
  · cases credential with
    | mutualTls => exact absurd rfl hkind
    | _ =>
      rcases hfile with ⟨rfl, rfl⟩ | ⟨rfl, rfl⟩ <;> cases o.caSecret? secrets <;>
        simp [Credential.tlsEntries, Credential.trustedCaEntries]

end Plan

/-- **Certificates are named where they are needed, and once.** In the lines of the sink of an
output that pipelines name, trusted certificates are named if its secret holds them, whatever the
type and the credential are, and a client certificate with its key if it is the credential. They
stand in the table for TLS, as the files of the secret. -/
theorem Topology.certificates_named {t : Topology} {secrets : Secrets} {settings : Settings}
    {text : String} (h : t.configuration secrets settings = .ok text) {o : Output}
    (ho : o ∈ t.allOutputs) (hn : ∃ p ∈ t.pipelines, o.name ∈ p.outputs) :
    ∃ credential, o.credential secrets = .ok credential ∧
      o.NamesCertificates secrets settings credential (placed none (Text.ofSink o.id text)) := by
  obtain ⟨plan, served, hplan, hs, rfl⟩ := configuration_eq_ok_iff.1 h
  have hsound := Plan.sound_of_resolve hplan
  have hreferenced := (mem_referenced_iff hplan).2 ⟨ho, hn⟩
  obtain ⟨credential, hcredential, hmem⟩ := Plan.exists_mem_served hs hreferenced
  have hnewline := hsound.newline_notMem_id (Plan.mem_list_of_mem_referenced hreferenced)
  refine ⟨credential, hcredential, ?_⟩
  rw [hsound.ofSink_writeTables hs hmem, ← Plan.sinkLines]
  exact {
    opens := Plan.head?_sinkLines hnewline
    trustedCa := Plan.namesFile_trustedCa hcredential hnewline
    certificate := Plan.namesFile_client hcredential hnewline (by simp)
    privateKey := Plan.namesFile_client hcredential hnewline (by simp) }

/-- An output with a user name and a password. -/
def webOutput : Output where
  name := "web"
  id := "web"
  type := .http
  url := some "https://web"
  secret := some "login"
  googleCloudLogging := none

/-- A pipeline to this output and to the log store. -/
def certified : Topology where
  pipelines := [{ name := "apps", inputs := ["application"], outputs := ["web", "default"] }]
  outputs := [{ name := "web", type := .http, url := webOutput.url, secret := webOutput.secret }]

/-- The plan of this topology. -/
def certifiedPlan : Plan where
  pipelines := [⟨"apps", "apps", [.application], ["web", "default"]⟩]
  outputs := (∅ : Outputs).insert "web" webOutput |>.insert "default" Output.logStore

/-- Secrets of both outputs with trusted certificates; that of the log store has one of its own. -/
def certifiedSecrets : Secrets := (∅ : Secrets)
  |>.insert "login" ((∅ : Secret)
    |>.insert SecretKey.username "a".toUTF8
    |>.insert SecretKey.password "b".toUTF8
    |>.insert SecretKey.trustedCa "c".toUTF8)
  |>.insert "collector" ((∅ : Secret)
    |>.insert SecretKey.certificate "d".toUTF8
    |>.insert SecretKey.privateKey "e".toUTF8
    |>.insert SecretKey.trustedCa "f".toUTF8)

/-- The server of each is checked, but only the log store is shown a certificate. -/
theorem certificates_named_certified :
    ∃ text, certified.configuration certifiedSecrets ⟨.inline, "/s/", 600⟩ = .ok text ∧
      webOutput ∈ certified.allOutputs ∧ Output.logStore ∈ certified.allOutputs ∧
      (∃ p ∈ certified.pipelines, webOutput.name ∈ p.outputs) ∧
      (∃ p ∈ certified.pipelines, Output.logStore.name ∈ p.outputs) ∧
      textsUnder "ca_file" (placed none (Text.ofSink "web" text)) =
        [(some "[sinks.web.tls]", some "/s/login/ca-bundle.crt")] ∧
      textsUnder "crt_file" (placed none (Text.ofSink "web" text)) = [] ∧
      textsUnder "ca_file" (placed none (Text.ofSink "default" text)) =
        [(some "[sinks.default.tls]", some "/s/collector/ca-bundle.crt")] ∧
      textsUnder "crt_file" (placed none (Text.ofSink "default" text)) =
        [(some "[sinks.default.tls]", some "/s/collector/tls.crt")] := by
  have hresolve : certified.resolve = .ok certifiedPlan := by decide +kernel
  have hserved : ∃ served, certifiedPlan.served certifiedSecrets = .ok served ∧
      served.map (·.2.kind) = [.basic, .mutualTls] := map_eq_ok_iff.1 (by decide +kernel)
  obtain ⟨served, hs, _⟩ := hserved
  obtain ⟨text, htext⟩ :
      ∃ text, certified.configuration certifiedSecrets ⟨.inline, "/s/", 600⟩ = .ok text :=
    ⟨_, Topology.configuration_eq_ok_iff.2 ⟨_, served, hresolve, hs, rfl⟩⟩
  have hall : webOutput ∈ certified.allOutputs ∧ Output.logStore ∈ certified.allOutputs := by
    decide +kernel
  have hweb : ∃ p ∈ certified.pipelines, webOutput.name ∈ p.outputs := by decide +kernel
  have hstore : ∃ p ∈ certified.pipelines, Output.logStore.name ∈ p.outputs := by decide +kernel
  obtain ⟨login, hlogin, hwebFiles⟩ := Topology.certificates_named htext hall.1 hweb
  obtain ⟨client, hclient, hstoreFiles⟩ := Topology.certificates_named htext hall.2 hstore
  have hkinds : login.kind = .basic ∧ client.kind = .mutualTls :=
    ⟨(Output.kind_of_credential hlogin).trans (by decide +kernel),
      (Output.kind_of_credential hclient).trans (by decide +kernel)⟩
  obtain ⟨_, hname, hwebCa⟩ := hwebFiles.trustedCa.named (by decide +kernel)
  have hwebClient := hwebFiles.certificate.absent (by rw [hkinds.1]; decide)
  obtain ⟨_, hname', hstoreCa⟩ := hstoreFiles.trustedCa.named (by decide +kernel)
  obtain ⟨_, hname'', hstoreClient⟩ := hstoreFiles.certificate.named hkinds.2
  cases hname
  cases hname'
  cases hname''
  exact ⟨text, htext, hall.1, hall.2, hweb, hstore, hwebCa, hwebClient, hstoreCa, hstoreClient⟩

end LogForwarding
