/-
# Sinks as they are written

A sink ends with what it embeds: the assignments that a credential adds to the
table of the sink itself, the tables for a user name and a password and for
TLS, or nothing. Between the texts of elements that are embedded in each other
newlines are left out and put back; in the end each assignment stands on a
line of its own, in the table that it belongs to.

Key definitions: `OutputType.sinkSegments`.
Key theorems: `Credential.writesLines_sinkPart`, `Plan.render_sinkWith`,
`Plan.writes_sinkWith`.
-/
import LogForwarding.Proofs.Component.Rendering

namespace LogForwarding

open Toml Element

namespace Credential

/-- A credential is written as its assignments, of which the last gives a quoted value. -/
theorem writesLines_body (settings : Settings) {credential : Credential}
    (h : credential ≠ anonymous) :
    (credential.body settings).WritesLines (assignments (credential.entries settings)) := by
  have hwhole := whole_body settings credential
  rcases credential with _ | ⟨secret, _ | _⟩ | _ | _
  · exact absurd rfl h
  all_goals
    refine hwhole.writesLines rfl (by decide) rfl
      (endsInText_piece (by simp [body, get?_set]; rfl)) ?_
    simp [piece, body, get?_set, entries, assignments, assignment]

theorem writesLines_trustedCaBody (settings : Settings) (secret : String) :
    (trustedCaBody settings secret).WritesLines
      (assignments (trustedCaEntries settings secret)) := by
  refine (whole_trustedCaBody settings secret).writesLines rfl (by decide) rfl
    (endsInText_piece (by simp [trustedCaBody, get?_set]; rfl)) ?_
  simp [piece, trustedCaBody, get?_set, trustedCaEntries, assignments, assignment]

/-- A table goes on with the lines of its content. -/
theorem writesLines_sinkTable {sinkId title table : String} {content : Element}
    {entries : List (String × String)} (hw : content.Whole)
    (h : content.WritesLines (assignments entries))
    (hc : Template.isCanonical [.text ("\n# " ++ title ++ "\n[sinks."), .field "id",
      .text ("." ++ table ++ "]\n"), .embed "strategy"]) :
    (sinkTable sinkId title table content).WritesLines
      (subTable sinkId title table entries).block := by
  obtain ⟨s, hs, hlines, hend⟩ := h
  have hcontent : (sinkTable sinkId title table content).piece (.embed "strategy") = s := by
    have hslot : (sinkTable sinkId title table content).get? "strategy" = some content.name := by
      simp [sinkTable, get?_embed]
    have htext := (embeddedText_of_embeds (e := sinkTable sinkId title table content) rfl).trans hs
    rw [piece_embed hslot htext, hend.trimEnd_eq]
  refine (whole_sinkTable hw hc).writesLines rfl hc rfl (hcontent ▸ hend) ?_
  have hid : (sinkTable sinkId title table content).piece (.field "id") = sinkId :=
    piece_field (by simp [sinkTable, get?_set, get?_embed])
  simp [hid, hcontent, subTable, Table.block, Table.above, Table.ofEntries, header, ← hlines]

theorem writesLines_tlsTable {sinkId : String} {content : Element}
    {entries : List (String × String)} (hw : content.Whole)
    (h : content.WritesLines (assignments entries)) :
    (tlsTable sinkId content).WritesLines (tlsSubTable sinkId entries).block :=
  writesLines_sinkTable hw h (by decide)

theorem writesLines_basicTable {sinkId : String} {content : Element}
    {entries : List (String × String)} (hw : content.Whole)
    (h : content.WritesLines (assignments entries)) :
    (basicTable sinkId content).WritesLines (basicSubTable sinkId entries).block :=
  writesLines_sinkTable hw h (by decide)

/-- Two elements that are embedded are found by their names, if these differ. -/
theorem embeddedText_of_embeds_pair {e a b : Element} (h : e.embeds = [a, b])
    (hne : a.name ≠ b.name) :
    e.embeddedText a.name = a.render ∧ e.embeddedText b.name = b.render := by
  simp [embeddedText, h, hne]

/-- The table for trusted certificates follows what stands before it. -/
theorem writesLines_both {settings : Settings} {sinkId secret : String} {auth : Element}
    {lines : List String} (hw : auth.Whole) (h : auth.WritesLines lines)
    (hne : auth.name ≠ (Place.table sinkId "tls").name) :
    (sinkPart.both settings sinkId auth secret).WritesLines
      (lines ++ (tlsSubTable sinkId (trustedCaEntries settings secret)).block) := by
  have htls : (tlsTable sinkId (trustedCaBody settings secret)).WritesLines
      (tlsSubTable sinkId (trustedCaEntries settings secret)).block :=
    writesLines_tlsTable (whole_trustedCaBody settings secret)
      (writesLines_trustedCaBody settings secret)
  obtain ⟨s, hs, hlines, hend⟩ := h
  obtain ⟨s', hs', hlines', hend'⟩ := htls
  rw [← name_tlsTable sinkId (trustedCaBody settings secret)] at hne
  have hembeds : (sinkPart.both settings sinkId auth secret).embeds =
      [auth, tlsTable sinkId (trustedCaBody settings secret)] := rfl
  obtain ⟨hauth, htls⟩ := embeddedText_of_embeds_pair hembeds hne
  have hfirst : (sinkPart.both settings sinkId auth secret).piece (.embed "auth") = s := by
    rw [piece_embed (by simp [sinkPart.both, get?_embed]) (hauth.trans hs), hend.trimEnd_eq]
  have hsecond : (sinkPart.both settings sinkId auth secret).piece (.embed "tls") = s' := by
    rw [piece_embed (by simp [sinkPart.both, get?_embed]) (htls.trans hs'), hend'.trimEnd_eq]
  refine (whole_both hw).writesLines rfl (by decide) rfl (hsecond ▸ hend') ?_
  simp [hfirst, hsecond, ← hlines, ← hlines']

/-- What a sink embeds is written as the assignments for the table of the sink itself, and the
tables that follow. -/
theorem writesLines_sinkPart (settings : Settings) (sinkId : String) {trustedCa : Option String}
    {credential : Credential} (h : credential ≠ anonymous ∨ trustedCa ≠ none) :
    (credential.sinkPart settings sinkId trustedCa).WritesLines
      (assignments (credential.ownEntries settings) ++
        (credential.tables settings sinkId trustedCa).flatMap Table.block) := by
  have hwhole := whole_body settings credential
  have hbody : credential ≠ anonymous →
      (credential.body settings).WritesLines (assignments (credential.entries settings)) :=
    writesLines_body settings
  have htrusted : ∀ secret, (tlsTable sinkId (trustedCaBody settings secret)).WritesLines
      (tlsSubTable sinkId (trustedCaEntries settings secret)).block := fun secret =>
    writesLines_tlsTable (whole_trustedCaBody settings secret)
      (writesLines_trustedCaBody settings secret)
  cases credential with
  | anonymous =>
    cases trustedCa with
    | none => simp at h
    | some secret => simpa [sinkPart, tables, ownEntries, assignments] using htrusted secret
  | mutualTls name caBundle =>
    have htable : (tlsTable sinkId (body settings (mutualTls name caBundle))).WritesLines _ :=
      writesLines_tlsTable hwhole (hbody (by simp))
    simpa [sinkPart, tables, ownEntries, assignments] using htable
  | basic name username password =>
    have htable :
        (basicTable sinkId (body settings (basic name username password))).WritesLines _ :=
      writesLines_basicTable hwhole (hbody (by simp))
    cases trustedCa with
    | none => simpa [sinkPart, tables, ownEntries, assignments] using htable
    | some secret =>
      have hname : (basicTable sinkId (body settings (basic name username password))).name ≠
          (Place.table sinkId "tls").name := by simp [name_basicTable, Place.name]
      have hboth : (sinkPart.both settings sinkId _ secret).WritesLines _ :=
        writesLines_both (whole_basicTable hwhole) htable hname
      simpa [sinkPart, tables, ownEntries, assignments] using hboth
  | cloudIam name path =>
    cases trustedCa with
    | none => simpa [sinkPart, tables, ownEntries] using hbody (by simp)
    | some secret =>
      have hname : (body settings (cloudIam name path)).name ≠ (Place.table sinkId "tls").name := by
        intro heq
        have hchars := congrArg String.toList heq
        simp [name_body, Credential.place, kind, secret?, Place.name] at hchars
      have hboth : (sinkPart.both settings sinkId _ secret).WritesLines _ :=
        writesLines_both hwhole (hbody (by simp)) hname
      simpa [sinkPart, tables, ownEntries] using hboth

end Credential

/-- The segments of the template of a sink. -/
def OutputType.sinkSegments (type : OutputType) : List Segment :=
  [.text "[sinks.", .field "id", .text ("]\n  type = \"" ++ type.agentType ++ "\"\n  inputs = "),
    .field "inputs"] ++ sinkTemplate.target type ++ [.embed "auth"]

namespace Plan

variable {plan : Plan} {secrets : Secrets} {settings : Settings} {o : Output}
  {credential : Credential}

theorem template_sinkWith :
    (plan.sinkWith secrets settings o credential).template =
      Template.write o.type.sinkSegments := by
  unfold sinkWith Output.setTarget
  cases o.type <;> rfl

/-- What a sink sets for its target is written as the assignments for it. -/
theorem piece_target :
    ((OutputType.sinkTemplate.target o.type).map
        (plan.sinkWith secrets settings o credential).piece).flatMap String.toList =
      '\n' :: (Text.unlines (assignments o.targetEntries)).toList := by
  have hfield : ∀ key value, (plan.sinkWith secrets settings o credential).get? key = some value →
      (plan.sinkWith secrets settings o credential).piece (.field key) = value :=
    fun key value => piece_field
  cases htype : o.type with
  | googleCloudLogging =>
    have hproject := hfield "project_id" (Toml.quote (o.googleCloudLogging.getD ⟨"", ""⟩).projectId)
      (by simp [sinkWith, Output.setTarget, htype, get?_set, get?_embed])
    have hlog := hfield "log_id" (Toml.quote (o.googleCloudLogging.getD ⟨"", ""⟩).logId)
      (by simp [sinkWith, Output.setTarget, htype, get?_set, get?_embed])
    simp [OutputType.sinkTemplate.target, hproject, hlog, Output.targetEntries, htype, assignments,
      assignment]
  | _ =>
    have hendpoint := hfield "endpoint" (Toml.quote (o.url.getD ""))
      (by simp [sinkWith, Output.setTarget, htype, get?_set, get?_embed])
    simp [OutputType.sinkTemplate.target, hendpoint, Output.targetEntries, htype, assignments,
      assignment]

/-- A sink is written as its assignments, and then what it embeds. -/
theorem render_sinkWith {text : String}
    (h : (credential.sinkPart settings o.id (o.caSecret? secrets)).render = .ok text) :
    (plan.sinkWith secrets settings o credential).render =
      .ok (Text.unlines (header ("sinks." ++ o.id) :: assignments (plan.sinkEntries o)) ++
        Text.trimEnd '\n' text) := by
  have hpart : (plan.sinkWith secrets settings o credential).piece (.embed "auth") =
      Text.trimEnd '\n' text :=
    piece_embed (by simp [sinkWith, get?_embed])
      ((embeddedText_of_embeds (embeds_sinkWith ..)).trans h)
  have hid : (plan.sinkWith secrets settings o credential).piece (.field "id") = o.id :=
    piece_field (by simp [sinkWith, get?_set, get?_embed])
  have hinputs : (plan.sinkWith secrets settings o credential).piece (.field "inputs") =
      Toml.array (plan.readers o) := piece_field (by simp [sinkWith, get?_set, get?_embed])
  have hcanonical : ∀ type : OutputType, Template.isCanonical type.sinkSegments := by
    rintro (_ | _ | _ | _) <;> decide
  rw [(plan.whole_sinkWith secrets settings o credential).render_eq_join template_sinkWith
    (hcanonical o.type)]
  refine congrArg Except.ok (String.toList_injective ?_)
  rw [toList_join, OutputType.sinkSegments]
  simp [hpart, hid, hinputs, piece_target, sinkEntries, header, assignments, assignment]

/-- **A sink is written as its tables.** -/
theorem writes_sinkWith :
    (plan.sinkWith secrets settings o credential).Writes
      (plan.sinkTables secrets settings o credential) := by
  have hlines : writeTables (plan.sinkTables secrets settings o credential) =
      Text.unlines (header ("sinks." ++ o.id) :: assignments (plan.sinkEntries o)) ++
        Text.unlines (assignments (credential.ownEntries settings) ++
          (credential.tables settings o.id (o.caSecret? secrets)).flatMap Table.block) := by
    simp [writeTables, sinkTables, Table.block, Table.above, Table.ofEntries, assignments,
      String.append_assoc]
  by_cases hnone : credential = .anonymous ∧ o.caSecret? secrets = none
  · -- Nothing is embedded, and the sink ends with its own newline.
    obtain ⟨rfl, hca⟩ := hnone
    have hbody : (Credential.anonymous.body settings).render = .ok (String.join (List.map _ [])) :=
      (Credential.whole_body settings .anonymous).render_eq_join rfl rfl
    have hempty : (Credential.anonymous.sinkPart settings o.id (o.caSecret? secrets)).render =
        .ok "" := by
      rw [hca]
      exact hbody
    refine ⟨_, render_sinkWith hempty, .inl ?_⟩
    rw [hlines, hca]
    rfl
  · obtain ⟨text, hrender, htext, hend⟩ := Credential.writesLines_sinkPart settings o.id
      (Decidable.not_and_iff_or_not.1 hnone)
    refine ⟨_, render_sinkWith hrender, .inr ?_⟩
    rw [hend.trimEnd_eq, String.append_assoc, htext, hlines]

end Plan

end LogForwarding
