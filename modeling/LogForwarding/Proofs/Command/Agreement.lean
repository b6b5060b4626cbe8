/-
# Generating and validating agree

To validate a topology is to make its plan and to count in it; to generate its
configuration is to make the same plan and to write down what it says. So what
was counted is found again in the configuration, and after a topology has been
validated only its credentials, or a file that cannot be written, can keep the
configuration from being there.

Key definitions: `Command.tally`, `Command.Delivers`, `Command.Withheld`,
`Command.Uncredited`.
Key theorems: `Command.generate_agrees_with_validate`.
-/
import LogForwarding.Proofs.Command.Effects
import LogForwarding.Proofs.Document.Tally

namespace LogForwarding.Command

variable {σ : Type} {accepts : String → Bool} {d : Storage σ} {s : σ}

/-- The line about a topology whose configuration is `text`. -/
def tally (topologyPath text : String) : String :=
  topologyPath ++ ": " ++ toString (Text.pipelineCount text) ++ " pipelines, " ++
    toString (Text.outputCount text) ++ " outputs\n"

/-- The configuration `text` is on the standard output, or has been written to its file. -/
def Delivers (d : Storage σ) (s : σ) (text : String) : Option String → Ending × σ → Prop
  | none, run => run.1.code = 0 ∧ run.1.output = text ∧ run.2 = s
  | some path, run => run.1.code = 0 ∧ run.1.output = "" ∧ d.write s path text = .ok run.2

/-- The configuration was there, but could not be written to its file. -/
def Withheld (d : Storage σ) (s : σ) (text : String) (out : Option String) (run : Ending × σ) :
    Prop :=
  ∃ path cause, out = some path ∧ d.write s path text = .error cause ∧
    run = (.ofResult (.error ⟨"write " ++ path, some cause⟩), s)

/-- The topology and the secrets were there, but an output has no credential. -/
def Uncredited (s : σ) (topologyPath : String) (t : Topology) (secrets : Secrets)
    (settings : Settings) (run : Ending × σ) : Prop :=
  ∃ fault, t.configuration secrets settings = .error fault ∧ fault.kind = .credential ∧
    run = (.ofResult
      (.error ⟨"generate configuration for " ++ topologyPath, some fault.message⟩), s)

/-! ### What is counted -/

/-- What is counted in the plan of a topology is found again in its configuration. -/
theorem tally_eq {t : Topology} {plan : Plan} {secrets : Secrets} {settings : Settings}
    {text : String} (hr : t.resolve = .ok plan) (hc : t.configuration secrets settings = .ok text)
    (topologyPath : String) :
    tally topologyPath text =
      topologyPath ++ ": " ++ toString plan.pipelines.length ++ " pipelines, " ++
        toString plan.referenced.length ++ " outputs\n" := by
  obtain ⟨plan', served, hr', hs, rfl⟩ := Topology.configuration_eq_ok_iff.1 hc
  rw [hr, Except.ok.injEq] at hr'
  subst hr'
  have hsound := Plan.sound_of_resolve hr
  rw [tally, hsound.pipelineCount_eq hs, hsound.outputCount_eq hs]

/-- With a plan, only a credential is left to be missing. -/
theorem kind_of_configuration_eq_error {t : Topology} {plan : Plan} {secrets : Secrets}
    {settings : Settings} {fault : Fault} (hr : t.resolve = .ok plan)
    (hc : t.configuration secrets settings = .error fault) : fault.kind = .credential := by
  rw [Topology.configuration_eq_error_iff hr, Plan.sinks_eq_error_iff] at hc
  obtain ⟨before, o, after, hreferenced, hbefore, ho⟩ := hc
  exact Output.kind_of_credential_error ho

/-! ### Runs on the same files -/

section

variable {generateArgs validateArgs : List String} {level level' topologyPath : String}
  {secretsPath out : Option String} {settings : Settings}
  {ending : Ending} {after : σ}

theorem Run.delivered (run : Run accepts d s generateArgs ending after)
    (h : Invocation.ofArgs generateArgs =
      .ok ⟨level, .generate topologyPath secretsPath out settings⟩)
    (hcode : ending.code = 0) :
    ∃ t secrets text, d.Inputs s topologyPath secretsPath t secrets ∧
      t.configuration secrets settings = .ok text ∧ Delivers d s text out (ending, after) := by
  obtain ⟨-, hcode', -⟩ | ⟨-, result, rfl, hresult⟩ := run.generation h
  · exact absurd (hcode.symm.trans hcode') (by decide)
  · cases hresult with
    | unread | refused | unwritten => exact absurd hcode (Ending.code_ofResult_error _)
    | shown hin hc => exact ⟨_, _, _, hin, hc, rfl, rfl, rfl⟩
    | written hin hc hw => exact ⟨_, _, _, hin, hc, rfl, rfl, hw⟩

/-- A run that validates ends with the counts if its topology has a plan. -/
theorem Run.eq_counted {t : Topology} {plan : Plan}
    (run : Run accepts d s validateArgs ending after)
    (h : Invocation.ofArgs validateArgs = .ok ⟨level, .validate topologyPath⟩)
    (hl : accepts level) (ht : d.Gives s topologyPath Topology.ofJson t)
    (hr : t.resolve = .ok plan) :
    ending.code = 0 ∧ ending.output = topologyPath ++ ": " ++ toString plan.pipelines.length ++
      " pipelines, " ++ toString plan.referenced.length ++ " outputs\n" := by
  obtain ⟨-, ⟨hl', -⟩ | ⟨-, result, rfl, hresult⟩⟩ := run.validation h
  · exact absurd hl hl'
  · cases hresult with
    | unread hnone => exact absurd ht (hnone t)
    | refused ht' hr' =>
      rw [ht.unique ht', hr'] at hr
      cases hr
    | counted ht' hr' =>
      rw [ht.unique ht', hr', Except.ok.injEq] at hr
      rw [hr]
      exact ⟨rfl, rfl⟩

/-- A run that validates and ends well has found a plan. -/
theorem Run.exists_plan (run : Run accepts d s validateArgs ending after)
    (h : Invocation.ofArgs validateArgs = .ok ⟨level, .validate topologyPath⟩)
    (hcode : ending.code = 0) :
    ∃ t plan, d.Gives s topologyPath Topology.ofJson t ∧ t.resolve = .ok plan := by
  obtain ⟨-, ⟨-, hcode'⟩ | ⟨-, result, rfl, hresult⟩⟩ := run.validation h
  · exact absurd (hcode.symm.trans hcode') (by decide)
  · cases hresult with
    | unread | refused => exact absurd hcode (Ending.code_ofResult_error _)
    | counted ht hr => exact ⟨_, _, ht, hr⟩

/-- A run for a configuration has three ends if the topology has a plan and the secrets are
there. -/
theorem Run.delivers_or {t : Topology} {plan : Plan} {secrets : Secrets}
    (run : Run accepts d s generateArgs ending after)
    (h : Invocation.ofArgs generateArgs =
      .ok ⟨level, .generate topologyPath secretsPath out settings⟩)
    (hl : accepts level) (hin : d.Inputs s topologyPath secretsPath t secrets)
    (hr : t.resolve = .ok plan) :
    (∃ text, t.configuration secrets settings = .ok text ∧
        (Delivers d s text out (ending, after) ∨ Withheld d s text out (ending, after))) ∨
      Uncredited s topologyPath t secrets settings (ending, after) := by
  obtain ⟨hl', -⟩ | ⟨-, result, rfl, hresult⟩ := run.generation h
  · exact absurd hl hl'
  · cases hresult with
    | unread hnone => exact absurd hin (hnone t secrets)
    | refused hin' hc =>
      rw [hin.1.unique hin'.1, hin.2.unique hin'.2]
      rw [hin.1.unique hin'.1] at hr
      exact .inr ⟨_, hc, kind_of_configuration_eq_error hr hc, rfl⟩
    | shown hin' hc =>
      rw [hin.1.unique hin'.1, hin.2.unique hin'.2]
      exact .inl ⟨_, hc, .inl ⟨rfl, rfl, rfl⟩⟩
    | unwritten hin' hc hw =>
      rw [hin.1.unique hin'.1, hin.2.unique hin'.2]
      exact .inl ⟨_, hc, .inr ⟨_, _, rfl, hw, rfl⟩⟩
    | written hin' hc hw =>
      rw [hin.1.unique hin'.1, hin.2.unique hin'.2]
      exact .inl ⟨_, hc, .inl ⟨rfl, rfl, hw⟩⟩

theorem Run.code_eq (run : Run accepts d s generateArgs ending after)
    (h : Invocation.ofArgs generateArgs =
      .ok ⟨level, .generate topologyPath secretsPath out settings⟩) :
    ending.code = 0 ∨ ending.code = 1 := by
  obtain ⟨-, hcode, -⟩ | ⟨-, result, rfl, -⟩ := run.generation h
  · exact .inr hcode
  · cases result with
    | ok output => exact .inl rfl
    | error failure => exact .inr rfl

/-- **To generate and to validate agree.** On the same files and with filters for log messages
that are accepted, a configuration that was generated is that of a valid topology and holds as many
pipelines and outputs as were counted; after a topology was found to be valid, only a credential
can be missing or a file be closed to writing; and one that is not valid has no configuration. -/
theorem generate_agrees_with_validate {generated validated : Ending × σ}
    (hg : Asks generateArgs ⟨level, .generate topologyPath secretsPath out settings⟩)
    (hv : Asks validateArgs ⟨level', .validate topologyPath⟩)
    (hl : accepts level) (hl' : accepts level')
    (hgenerated : (program accepts generateArgs).runOn d s = generated)
    (hvalidated : (program accepts validateArgs).runOn d s = validated) :
    (generated.1.code = 0 →
      ∃ t secrets text, d.Inputs s topologyPath secretsPath t secrets ∧
        t.configuration secrets settings = .ok text ∧ Delivers d s text out generated ∧
        validated.1.code = 0 ∧ validated.1.output = tally topologyPath text) ∧
    (validated.1.code = 0 → ∀ secrets, d.GivesSecrets s secretsPath secrets →
      ∃ t, d.Gives s topologyPath Topology.ofJson t ∧
        ((∃ text, t.configuration secrets settings = .ok text ∧
            (Delivers d s text out generated ∨ Withheld d s text out generated)) ∨
          Uncredited s topologyPath t secrets settings generated)) ∧
    (validated.1.code = 1 → generated.1.code = 1) := by
  rw [asks_iff] at hg hv
  have hgenerate := run_program accepts d s generateArgs
  have hvalidate := run_program accepts d s validateArgs
  rw [hgenerated] at hgenerate
  rw [hvalidated] at hvalidate
  have hdelivered : generated.1.code = 0 →
      ∃ t secrets text plan, d.Inputs s topologyPath secretsPath t secrets ∧
        t.configuration secrets settings = .ok text ∧ Delivers d s text out generated ∧
        t.resolve = .ok plan := by
    intro hcode
    obtain ⟨t, secrets, text, hin, hc, hdelivers⟩ := hgenerate.delivered hg hcode
    obtain ⟨plan, served, hr, hs, htext⟩ := Topology.configuration_eq_ok_iff.1 hc
    exact ⟨t, secrets, text, plan, hin, hc, hdelivers, hr⟩
  refine ⟨?_, ?_, ?_⟩
  · intro hcode
    obtain ⟨t, secrets, text, plan, hin, hc, hdelivers, hr⟩ := hdelivered hcode
    refine ⟨t, secrets, text, hin, hc, hdelivers, ?_⟩
    rw [tally_eq hr hc]
    exact hvalidate.eq_counted hv hl' hin.1 hr
  · intro hcode secrets hsecrets
    obtain ⟨t, plan, ht, hr⟩ := hvalidate.exists_plan hv hcode
    exact ⟨t, ht, hgenerate.delivers_or hg hl ⟨ht, hsecrets⟩ hr⟩
  · intro hcode
    obtain hzero | hone := hgenerate.code_eq hg
    · obtain ⟨t, secrets, text, plan, hin, hc, hdelivers, hr⟩ := hdelivered hzero
      have hvalid := (hvalidate.eq_counted hv hl' hin.1 hr).1
      rw [hvalid] at hcode
      exact absurd hcode (by decide)
    · exact hone

end

/-- The topology that forwards audit logs is valid, and has one pipeline and one output. -/
theorem generate_agrees_with_validate_auditing :
    ∃ text generated validated, auditing.configuration auditingSecrets {} = .ok text ∧
      (program isLevelName ["generate", "--topology", "t", "--secrets", "s"]).runOn Folder.storage
        auditingFolder = generated ∧
      (program isLevelName ["validate", "--topology", "t", "--log-level", "info"]).runOn
        Folder.storage auditingFolder = validated ∧
      generated.1.code = 0 ∧ generated.1.output = text ∧ generated.2 = auditingFolder ∧
      validated.1.code = 0 ∧ validated.1.output = tally "t" text ∧
      tally "t" text = "t: 1 pipelines, 1 outputs\n" := by
  have hg : Asks ["generate", "--topology", "t", "--secrets", "s"]
      ⟨"warn", .generate "t" (some "s") none {}⟩ := by
    rw [asks_iff]
    decide +kernel
  have hv : Asks ["validate", "--topology", "t", "--log-level", "info"]
      ⟨"info", .validate "t"⟩ := by
    rw [asks_iff]
    decide +kernel
  obtain ⟨text, htext⟩ := exists_configuration_auditing {}
  have htally : tally "t" text = "t: 1 pipelines, 1 outputs\n" := by
    rw [tally_eq resolve_auditing htext]
    rfl
  have run := run_program isLevelName Folder.storage auditingFolder
    ["generate", "--topology", "t", "--secrets", "s"]
  -- What the runs end with is not computed: it follows from what they are known to do.
  generalize hgenerated :
    (program isLevelName ["generate", "--topology", "t", "--secrets", "s"]).runOn Folder.storage
      auditingFolder = generated at run ⊢
  generalize hvalidated :
    (program isLevelName ["validate", "--topology", "t", "--log-level", "info"]).runOn
      Folder.storage auditingFolder = validated
  have hdelivers : Delivers Folder.storage auditingFolder text none generated := by
    obtain ⟨text', hc, hdelivers | ⟨_, _, hnone, _⟩⟩ | ⟨fault, hc, _⟩ :=
      run.delivers_or (asks_iff.1 hg) rfl inputs_auditing resolve_auditing
    · rw [htext, Except.ok.injEq] at hc
      exact hc ▸ hdelivers
    · cases hnone
    · rw [htext] at hc
      cases hc
  obtain ⟨hcode, houtput, hafter⟩ := hdelivers
  obtain ⟨t, secrets, text', hin, hc, -, hvalid, hcounts⟩ :=
    (generate_agrees_with_validate hg hv (rfl : isLevelName "warn" = true)
      (rfl : isLevelName "info" = true) hgenerated hvalidated).1 hcode
  rw [hin.1.unique inputs_auditing.1, hin.2.unique inputs_auditing.2, htext,
    Except.ok.injEq] at hc
  rw [← hc] at hcounts
  exact ⟨text, generated, validated, htext, rfl, rfl, hcode, houtput, hafter, hvalid, hcounts,
    htally⟩

end LogForwarding.Command
