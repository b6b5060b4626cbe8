/-
# Components are whole

Every component of a configuration sets the fields that its template names and
embeds what its slots ask for, whatever the names and values are that it is
made from.

Key definitions: `Plan.sinkWith`.
Key theorems: `NodeLog.whole_source`, `whole_route`, `Input.whole_marking`,
`Pipeline.whole_collector`, `Credential.whole_sinkPart`, `Plan.whole_sinkWith`.
-/
import LogForwarding.Configuration
import LogForwarding.Proofs.Expansion.Filled

namespace LogForwarding

open Element

/-- A component that embeds nothing is whole if it is filled. -/
theorem Element.Filled.whole {e : Element} (h : e.Filled) (he : e.embeds = []) : e.Whole := by
  refine .of_embeds h fun child hc => ?_
  rw [he] at hc
  cases hc

theorem NodeLog.whole_source (settings : Settings) (log : NodeLog) :
    (log.source settings).Whole := by
  have haudit : ∀ description,
      ((log.auditSource settings description).place .sources log.rank |>.set "id" log.id).Whole :=
    fun description => .whole (.of_write rfl (by decide)
      (by simp [Fills, auditSource, get?_set])) rfl
  cases log with
  | container =>
    exact .whole (.of_write rfl (by decide) (by simp [Fills, source, sourceBody, get?_set])) rfl
  | journal =>
    exact .whole (.of_write rfl (by decide) (by simp [Fills, source, sourceBody, get?_set])) rfl
  | hostAudit => exact haudit "host audit"
  | kubernetesAudit => exact haudit "kubernetes audit"
  | openshiftAudit => exact haudit "openshift audit"
  | ovnAudit => exact haudit "ovn audit"

theorem whole_route : route.Whole :=
  .whole (.of_write rfl (by decide) (by simp [Fills, route, get?_set])) rfl

theorem Input.whole_marking (input : Input) : input.marking.Whole :=
  .whole (.of_write rfl (by decide) (by simp [Fills, marking, get?_set])) rfl

/-- The transforms of a pipeline are the split of the container logs, where an input uses it, the
markings of its inputs, and its own. -/
theorem Pipeline.mem_transforms {p : Pipeline} {e : Element} :
    e ∈ p.transforms ↔ p.inputs.any Input.usesContainers ∧ e = route ∨
      (∃ input ∈ p.inputs, input.marking = e) ∨ e = p.collector := by
  unfold transforms
  split_ifs with h <;> simp [h]

theorem Pipeline.whole_collector (p : Pipeline) : p.collector.Whole :=
  .whole (.of_write rfl (by decide) (by simp [Fills, collector, get?_set])) rfl

namespace Credential

theorem whole_body (settings : Settings) (credential : Credential) :
    (credential.body settings).Whole := by
  cases credential with
  | anonymous =>
    have hempty : (body settings .anonymous).template = Template.write [] := rfl
    exact .whole (.of_write hempty rfl (by simp)) rfl
  | mutualTls secret caBundle =>
    cases caBundle with
    | false => exact .whole (.of_write rfl (by decide) (by simp [Fills, body, get?_set])) rfl
    | true => exact .whole (.of_write rfl (by decide) (by simp [Fills, body, get?_set])) rfl
  | basic secret username password =>
    exact .whole (.of_write rfl (by decide) (by simp [Fills, body, get?_set])) rfl
  | cloudIam secret credentialsPath =>
    exact .whole (.of_write rfl (by decide) (by simp [Fills, body, get?_set])) rfl

theorem whole_trustedCaBody (settings : Settings) (secret : String) :
    (trustedCaBody settings secret).Whole :=
  .whole (.of_write rfl (by decide) (by simp [Fills, trustedCaBody, get?_set])) rfl

/-- A table is whole if its title and name leave the template as it is. -/
theorem whole_sinkTable {sinkId title table : String} {content : Element} (h : content.Whole)
    (hc : Template.isCanonical [.text ("\n# " ++ title ++ "\n[sinks."), .field "id",
      .text ("." ++ table ++ "]\n"), .embed "strategy"]) :
    (sinkTable sinkId title table content).Whole := by
  refine .of_embeds (.of_write rfl hc ?_) ?_
  · simp [Fills, sinkTable, get?_set, get?_embed]
  · simpa [sinkTable] using h

theorem whole_tlsTable {sinkId : String} {content : Element} (h : content.Whole) :
    (tlsTable sinkId content).Whole := whole_sinkTable h (by decide)

theorem whole_basicTable {sinkId : String} {content : Element} (h : content.Whole) :
    (basicTable sinkId content).Whole := whole_sinkTable h (by decide)

theorem whole_both {settings : Settings} {sinkId secret : String} {auth : Element}
    (h : auth.Whole) : (sinkPart.both settings sinkId auth secret).Whole := by
  refine .of_embeds (.of_write rfl (by decide) ?_) ?_
  · simp [Fills, sinkPart.both, get?_embed]
  · simpa [sinkPart.both] using ⟨h, whole_tlsTable (whole_trustedCaBody settings secret)⟩

theorem whole_sinkPart (settings : Settings) (sinkId : String) (trustedCa : Option String)
    (credential : Credential) : (credential.sinkPart settings sinkId trustedCa).Whole := by
  have hbody := whole_body settings credential
  cases credential with
  | anonymous =>
    cases trustedCa with
    | none => exact hbody
    | some secret => exact whole_tlsTable (whole_trustedCaBody settings secret)
  | mutualTls => exact whole_tlsTable hbody
  | basic =>
    cases trustedCa with
    | none => exact whole_basicTable hbody
    | some secret => exact whole_both (whole_basicTable hbody)
  | cloudIam =>
    cases trustedCa with
    | none => exact hbody
    | some secret => exact whole_both hbody

end Credential

namespace Plan

/-- The sink of the output with the given credential. -/
def sinkWith (plan : Plan) (secrets : Secrets) (settings : Settings) (output : Output)
    (credential : Credential) : Element :=
  output.setTarget (Element.ofTemplate ("sinks." ++ output.id) output.type.sinkTemplate)
    |>.place .sinks 0
    |>.set "id" output.id
    |>.set "inputs" (Toml.array (plan.readers output))
    |>.embed "auth" (credential.sinkPart settings output.id (output.caSecret? secrets))

/-- A sink is refused for its credential only. -/
theorem sink_eq_map (plan : Plan) (secrets : Secrets) (settings : Settings) (output : Output) :
    plan.sink secrets settings output =
      (output.credential secrets).map (plan.sinkWith secrets settings output) := by
  rw [sink]
  cases output.credential secrets <;> rfl

theorem embeds_sinkWith (plan : Plan) (secrets : Secrets) (settings : Settings) (output : Output)
    (credential : Credential) :
    (plan.sinkWith secrets settings output credential).embeds =
      [credential.sinkPart settings output.id (output.caSecret? secrets)] := by
  unfold sinkWith Output.setTarget
  cases output.type <;> rfl

theorem whole_sinkWith (plan : Plan) (secrets : Secrets) (settings : Settings) (output : Output)
    (credential : Credential) : (plan.sinkWith secrets settings output credential).Whole := by
  have hpart : (credential.sinkPart settings output.id (output.caSecret? secrets)).Whole :=
    Credential.whole_sinkPart settings output.id _ credential
  have htemplate : (plan.sinkWith secrets settings output credential).template =
      output.type.sinkTemplate := by
    unfold sinkWith Output.setTarget
    cases output.type <;> rfl
  refine .of_embeds ?_ (by simpa [embeds_sinkWith] using hpart)
  cases htype : output.type <;>
    · rw [htype] at htemplate
      refine .of_write htemplate (by decide) ?_
      simp [Fills, sinkWith, Output.setTarget, htype, get?_set, get?_embed,
        OutputType.sinkTemplate.target]

end Plan

end LogForwarding
