/-
# One configuration in two styles

User names and passwords can be written as values or as references. The two
styles give two configurations of one topology, or fail with one fault. Line
by line these are equal and stand under equal headers, but for the lines of
the user names and passwords: no value is divided over lines, however many
line breaks it holds, and no value decides which tables there are.

Key definitions: `Toml.placed`, `Toml.Table.Alike`, `Plan.Twin`.
Key theorems: `Toml.forall₂_placed`, `Plan.forall₂_alike_tables`,
`Topology.configuration_styles`.
-/
import LogForwarding.Proofs.Document.Composition

namespace LogForwarding

open Toml

/-! ### Lines and the headers above them -/

namespace Toml

/-- Each line with the header that it stands under, which is `above` for those before the first
header; a header stands under itself. -/
def placed (above : Option String) : List String → List (Option String × String)
  | [] => []
  | line :: rest =>
    let here := if isHeader line then some line else above
    (here, line) :: placed here rest

theorem length_placed (above : Option String) (lines : List String) :
    (placed above lines).length = lines.length := by
  induction lines generalizing above with
  | nil => rfl
  | cons line rest ih => simp [placed, ih]

/-- Up to the next header lines stand under the one before. -/
theorem placed_append_of_not_isHeader {above : Option String} {lines : List String}
    (h : ∀ line ∈ lines, isHeader line = false) (rest : List String) :
    placed above (lines ++ rest) = lines.map (above, ·) ++ placed above rest := by
  induction lines with
  | nil => rfl
  | cons line lines ih =>
    obtain ⟨hline, hlines⟩ := List.forall_mem_cons.1 h
    rw [List.cons_append, placed, hline, List.map_cons, List.cons_append]
    exact congrArg _ (ih hlines)

/-- The lines of a table stand under its header, and what is above it under the one before. -/
theorem placed_block {t : Table} (h : t.Proper) (above : Option String) (rest : List String) :
    placed above (t.block ++ rest) =
      t.above.map (above, ·) ++ (some (header t.name), header t.name) ::
        (t.body.map (some (header t.name), ·) ++ placed (some (header t.name)) rest) := by
  have hbody : ∀ line ∈ t.body, isHeader line = false := fun _ => h.not_isHeader_of_mem_body
  rw [Table.block, List.append_assoc,
    placed_append_of_not_isHeader fun line hl => (Table.mem_above hl).1, List.cons_append, placed,
    if_pos (isHeader_header t.name), placed_append_of_not_isHeader hbody]

/-- The tables have one comment and one name, and their lines are related. -/
structure Table.Alike (R : Option String × String → Option String × String → Prop)
    (t u : Table) : Prop where
  /-- The comments are equal. -/
  comment : t.comment = u.comment
  /-- The names are equal. -/
  name : t.name = u.name
  /-- The lines are related, each under the header. -/
  body : List.Forall₂ (fun line line' =>
    R (some (header t.name), line) (some (header t.name), line')) t.body u.body

section Alike

variable {R : Option String × String → Option String × String → Prop} [Std.Refl R]
  {ts us : List Table}

instance : Std.Refl (Table.Alike R) := ⟨fun _ => ⟨rfl, rfl, List.forall₂_refl _⟩⟩

omit [Std.Refl R] in
/-- Tables of assignments are alike if their assignments are related. -/
theorem Table.alike_ofEntries {comment : Option String} {name : String}
    {entries entries' : List (String × String)}
    (h : List.Forall₂ (fun e e' =>
      R (some (header name), assignment e.1 e.2) (some (header name), assignment e'.1 e'.2))
      entries entries') :
    (Table.ofEntries comment name entries).Alike R (Table.ofEntries comment name entries') := by
  refine ⟨rfl, rfl, ?_⟩
  unfold Table.ofEntries assignments
  rwa [List.forall₂_map_left_iff, List.forall₂_map_right_iff]

/-- Texts of alike tables are related line by line. -/
theorem forall₂_placed_flatMap (h : List.Forall₂ (Table.Alike R) ts us)
    (ht : ∀ t ∈ ts, t.Proper) (hu : ∀ u ∈ us, u.Proper) (above : Option String)
    (rest : List String) :
    List.Forall₂ R (placed above (ts.flatMap Table.block ++ rest))
      (placed above (us.flatMap Table.block ++ rest)) := by
  induction h generalizing above with
  | nil => exact List.forall₂_refl _
  | @cons t u ts us halike _ ih =>
    obtain ⟨ht, hts⟩ := List.forall_mem_cons.1 ht
    obtain ⟨hu, hus⟩ := List.forall_mem_cons.1 hu
    have habove : t.above = u.above := by
      unfold Table.above
      rw [halike.comment]
    rw [List.flatMap_cons, List.flatMap_cons, List.append_assoc, List.append_assoc,
      placed_block ht, placed_block hu, ← habove, ← halike.name]
    apply List.rel_append (List.forall₂_refl _)
    apply List.Forall₂.cons (Std.Refl.refl _)
    apply List.rel_append
    · rw [List.forall₂_map_left_iff, List.forall₂_map_right_iff]
      exact halike.body
    · exact ih hts hus _

/-- **Documents of alike tables are related line by line.** -/
theorem forall₂_placed (h : List.Forall₂ (Table.Alike R) ts us) (ht : ∀ t ∈ ts, t.Proper)
    (hu : ∀ u ∈ us, u.Proper) :
    List.Forall₂ R (placed none (Text.lines (writeTables ts)))
      (placed none (Text.lines (writeTables us))) := by
  rw [lines_writeTables ht, lines_writeTables hu]
  -- The blank line above the first table is not one of the text, and is left out on both sides.
  have hblocks := forall₂_placed_flatMap h ht hu none [""]
  cases h with
  | nil => exact hblocks
  | cons => exact (List.forall₂_cons.1 hblocks).2

end Alike

end Toml

/-! ### Tables in two styles -/

/-- A user name and a password come from the secret of the output. -/
theorem Output.secret_eq_of_basic {o : Output} {secrets : Secrets}
    {secret username password : String}
    (h : o.credential secrets = .ok (.basic secret username password)) :
    o.secret = some secret := by
  rcases ofSecret?_of_credential h with hnone | ⟨name, stored, hname, _, _, hc⟩
  · cases hnone
  · rcases Credential.secret?_of_ofSecret? hc with hnone | hsecret
    · cases hnone
    · rw [hname, ← hsecret]
      rfl

/-- The keys of a table for a user name and a password, with those of the secret and the values. -/
def loginLines (username password : String) : List (String × String × String) :=
  [("user", SecretKey.username, username), ("password", SecretKey.password, password)]

namespace Plan

/-- Lines, each with the header above it, that take one place in two styles: they are equal, or
assign a user name or password of an output, as the value on the left and as the reference on the
right. -/
inductive Twin (plan : Plan) (secrets : Secrets) :
    Option String × String → Option String × String → Prop where
  /-- The lines are equal. -/
  | same (line : Option String × String) : Twin plan secrets line line
  /-- The lines assign a user name or password, in the table of the output for it. -/
  | login {o : Output} {secret username password label key value : String}
    (referenced : o ∈ plan.referenced) (named : o.secret = some secret)
    (credential : o.credential secrets = .ok (.basic secret username password))
    (line : (label, key, value) ∈ loginLines username password) :
    Twin plan secrets
      (some ("[sinks." ++ o.id ++ ".auth]"), assignment label (quote value))
      (some ("[sinks." ++ o.id ++ ".auth]"),
        assignment label (quote (environmentReference secret key)))

variable {plan : Plan} {secrets : Secrets} {settings : Settings}
  {served : List (Output × Credential)}

instance : Std.Refl (plan.Twin secrets) := ⟨Twin.same⟩

/-- The tables for a user name and a password are alike in the two styles. -/
theorem alike_basicSubTable {o : Output} {secret username password : String}
    (ho : o ∈ plan.referenced) (hc : o.credential secrets = .ok (.basic secret username password)) :
    (Credential.basicSubTable o.id
        (Credential.entries { settings with secretStyle := .inline }
          (.basic secret username password))).Alike (plan.Twin secrets)
      (Credential.basicSubTable o.id
        (Credential.entries { settings with secretStyle := .reference }
          (.basic secret username password))) := by
  have hheader : header ("sinks." ++ o.id ++ "." ++ "auth") = "[sinks." ++ o.id ++ ".auth]" := by
    simp [header, ← String.toList_inj]
  have hlogin : ∀ label key value, (label, key, value) ∈ loginLines username password →
      plan.Twin secrets
        (some (header ("sinks." ++ o.id ++ "." ++ "auth")), assignment label (quote value))
        (some (header ("sinks." ++ o.id ++ "." ++ "auth")),
          assignment label (quote (environmentReference secret key))) := by
    intro label key value hline
    rw [hheader]
    exact .login ho (Output.secret_eq_of_basic hc) hc hline
  unfold Credential.basicSubTable Credential.subTable
  apply Table.alike_ofEntries
  simp only [Credential.entries, Credential.secretValue, List.forall₂_cons]
  refine ⟨.same _, hlogin _ _ _ ?_, hlogin _ _ _ ?_, .nil⟩
  · exact List.mem_cons_self
  · exact List.mem_cons_of_mem _ List.mem_cons_self

/-- Only the lines of a user name and a password depend on the style. -/
theorem forall₂_alike_sinkTables {o : Output} {credential : Credential}
    (ho : o ∈ plan.referenced) (hc : o.credential secrets = .ok credential) :
    List.Forall₂ (Table.Alike (plan.Twin secrets))
      (plan.sinkTables secrets { settings with secretStyle := .inline } o credential)
      (plan.sinkTables secrets { settings with secretStyle := .reference } o credential) := by
  have hfile : ∀ secret key,
      Settings.secretFile { settings with secretStyle := .inline } secret key =
        Settings.secretFile { settings with secretStyle := .reference } secret key :=
    fun _ _ => rfl
  simp only [sinkTables, Credential.tables, Credential.ownEntries, Credential.trustedCaEntries,
    hfile]
  cases credential with
  | basic =>
    apply List.Forall₂.cons (Std.Refl.refl _)
    exact .cons (alike_basicSubTable ho hc) (List.forall₂_refl _)
  | anonymous => exact List.forall₂_refl _
  | mutualTls =>
    simp only [Credential.entries, hfile]
    exact List.forall₂_refl _
  | cloudIam => exact List.forall₂_refl _

/-- The tables of a plan are alike in the two styles. -/
theorem forall₂_alike_tables (settings : Settings) (hs : plan.served secrets = .ok served) :
    List.Forall₂ (Table.Alike (plan.Twin secrets))
      (plan.tables secrets { settings with secretStyle := .inline } served)
      (plan.tables secrets { settings with secretStyle := .reference } served) := by
  obtain ⟨hreferenced, hcredentials⟩ := served_eq_ok_iff.1 hs
  have hlogs : ∀ log : NodeLog, log.table { settings with secretStyle := .inline } =
      log.table { settings with secretStyle := .reference } := by
    intro log
    cases log <;> rfl
  have hsinks : List.Forall₂ (List.Forall₂ (Table.Alike (plan.Twin secrets)))
      (served.map fun s =>
        plan.sinkTables secrets { settings with secretStyle := .inline } s.1 s.2)
      (served.map fun s =>
        plan.sinkTables secrets { settings with secretStyle := .reference } s.1 s.2) := by
    rw [List.forall₂_map_left_iff, List.forall₂_map_right_iff, List.forall₂_same]
    intro s hmem
    refine forall₂_alike_sinkTables ?_ (hcredentials s hmem)
    rw [← hreferenced]
    exact List.mem_map_of_mem hmem
  unfold tables tableGroups
  simp only [List.flatten_append, hlogs]
  exact List.rel_append (List.forall₂_refl _) (List.rel_append (List.forall₂_refl _)
    (List.rel_append (List.forall₂_refl _) (List.rel_flatten hsinks)))

end Plan

/-- **The styles differ in user names and passwords only.** A topology has no configuration in
either style, for one fault, or one in each. These have equally many lines, and those that take one
place are equal and stand under one header, or assign a user name or password. -/
theorem Topology.configuration_styles (t : Topology) (secrets : Secrets) (settings : Settings) :
    (∃ fault, t.configuration secrets { settings with secretStyle := .inline } = .error fault ∧
      t.configuration secrets { settings with secretStyle := .reference } = .error fault) ∨
    ∃ plan values references, t.resolve = .ok plan ∧
      t.configuration secrets { settings with secretStyle := .inline } = .ok values ∧
      t.configuration secrets { settings with secretStyle := .reference } = .ok references ∧
      (Text.lines values).length = (Text.lines references).length ∧
      List.Forall₂ (plan.Twin secrets) (placed none (Text.lines values))
        (placed none (Text.lines references)) := by
  cases hplan : t.resolve with
  | error fault =>
    have hfault : ∀ settings, t.configuration secrets settings = .error fault :=
      fun _ => bind_eq_error_iff.2 (.inl hplan)
    exact .inl ⟨fault, hfault _, hfault _⟩
  | ok plan =>
    have hsound := Plan.sound_of_resolve hplan
    cases hs : plan.served secrets with
    | error fault =>
      have hsinks : ∀ settings, plan.sinks secrets settings = .error fault := by
        intro settings
        rw [Plan.sinks_eq_map_served, hs]
        rfl
      have hfault : ∀ settings, t.configuration secrets settings = .error fault :=
        fun settings => (configuration_eq_error_iff hplan).2 (hsinks settings)
      exact .inl ⟨fault, hfault _, hfault _⟩
    | ok served =>
      have htext := configuration_eq_ok hplan hs
      have hplaced := forall₂_placed (Plan.forall₂_alike_tables settings hs)
        (hsound.tables_proper hs) (hsound.tables_proper hs)
      have hlength := hplaced.length_eq
      rw [length_placed, length_placed] at hlength
      exact .inr ⟨plan, _, _, rfl, htext _, htext _, hlength, hplaced⟩

end LogForwarding
