/-
# Topologies that declare the same

Outputs may be declared in any order, and a reference may be repeated in its
pipeline; neither changes what a topology means. Two such topologies have one
plan, and so one configuration. Where they cannot be resolved the order of the
outputs decides which of several bad outputs is reported; every other fault is
found after the outputs, in what both have in common.

Key definitions: `Topology.Rearranges`, `Fault.isOfOutput`.
Key theorems: `map_eraseDups_mapM`, `DeclaredPipeline.resolve_eq`,
`foldlM_addOutput_of_perm`, `Topology.resolve_rearranged`.
-/
import LogForwarding.Configuration
import LogForwarding.Proofs.Resolution.Phases

namespace LogForwarding

/-- The fault tells of the declaration of an output. -/
def Fault.isOfOutput : Fault → Bool
  | reservedOutputName _ | duplicateOutput _ | missingUrl _ | missingGoogleCloudLogging _ => true
  | _ => false

/-- `q` is the pipeline `p`, with some references repeated after their first places. -/
structure DeclaredPipeline.Restates (p q : DeclaredPipeline) : Prop where
  /-- The names are equal. -/
  name_eq : p.name = q.name
  /-- Inputs may be repeated. -/
  inputs : Repeats p.inputs q.inputs
  /-- Outputs may be repeated. -/
  outputs : Repeats p.outputs q.outputs

/-- `u` is the topology `t`, with its outputs in some order and some references repeated. -/
structure Topology.Rearranges (t u : Topology) : Prop where
  /-- The pipelines are the same, but for repeated references. -/
  pipelines : List.Forall₂ DeclaredPipeline.Restates t.pipelines u.pipelines
  /-- The outputs are the same, in some order. -/
  outputs : t.outputs.Perm u.outputs

/-! ### Pipelines -/

/-- Repeated steps of a run do not change which results it has, nor its fault. -/
theorem map_eraseDups_mapM {ε α β : Type} [DecidableEq α] [DecidableEq β] (f : α → Except ε β)
    (xs : List α) :
    (xs.eraseDups.mapM f).map List.eraseDups = (xs.mapM f).map List.eraseDups := by
  induction xs using List.reverseRecOn with
  | nil => rfl
  | append_singleton xs a ih =>
    rw [eraseDups_concat, mapM_concat]
    split_ifs with ha
    · rw [ih]
      cases hxs : xs.mapM f with
      | error e => rfl
      | ok ys =>
        -- The step has been made before, and its result is there.
        obtain ⟨b, hb, hfa⟩ := exists_mem_of_forall₂ (mapM_eq_ok_iff.1 hxs).flip ha
        have hagain : ys.eraseDups = (ys ++ [b]).eraseDups := by rw [eraseDups_concat, if_pos hb]
        rw [hfa]
        exact congrArg Except.ok hagain
    · rw [mapM_concat]
      cases hxs : xs.mapM f with
      | error e =>
        rw [hxs, map_eq_error_iff.2 rfl, map_eq_error_iff] at ih
        rw [ih]
      | ok ys =>
        rw [hxs] at ih
        obtain ⟨zs, hzs, heq⟩ := map_eq_ok_iff.1 ih
        rw [hzs]
        cases f a with
        | error e => rfl
        | ok b => exact congrArg Except.ok (eraseDups_append_congr heq [b])

namespace DeclaredPipeline

/-- A pipeline is resolved from its references without repetitions. -/
theorem resolve_eq (known : Outputs) (name : String) (p : DeclaredPipeline) :
    p.resolve known name =
      if p.inputs.eraseDups = [] then .error (.emptyPipeline name "input")
      else if p.outputs.eraseDups = [] then .error (.emptyPipeline name "output")
      else do
        let inputs ← (p.inputs.eraseDups.mapM (resolveInput name)).map List.eraseDups
        let outputs ← (p.outputs.eraseDups.mapM (resolveOutput known name)).map List.eraseDups
        return ⟨name, componentId name, inputs, outputs⟩ := by
  rw [map_eraseDups_mapM, map_eraseDups_mapM]
  simp only [eraseDups_eq_nil_iff]
  unfold resolve
  by_cases hi : p.inputs = []
  · rw [if_pos hi, if_pos hi]
    rfl
  by_cases ho : p.outputs = []
  · rw [if_neg hi, if_neg hi, if_pos ho, if_pos ho]
    rfl
  rw [if_neg hi, if_neg hi, if_neg ho, if_neg ho]
  cases p.inputs.mapM (resolveInput name) with
  | error fault => rfl
  | ok inputs => cases p.outputs.mapM (resolveOutput known name) <;> rfl

/-- A repeated reference makes no difference. -/
theorem Restates.resolve_eq_resolve {p q : DeclaredPipeline} (h : p.Restates q) (known : Outputs)
    (name : String) : p.resolve known name = q.resolve known name := by
  rw [resolve_eq, resolve_eq, h.inputs.eraseDups_eq, h.outputs.eraseDups_eq]

end DeclaredPipeline

theorem foldlM_addPipeline_of_restates {known : Outputs} {ps qs : List DeclaredPipeline}
    (h : List.Forall₂ DeclaredPipeline.Restates ps qs) (before : List Pipeline) :
    ps.foldlM (addPipeline known) before = qs.foldlM (addPipeline known) before := by
  induction h generalizing before with
  | nil => rfl
  | @cons p q ps qs hpq _ ih =>
    have hstep : addPipeline known before p = addPipeline known before q := by
      unfold addPipeline DeclaredPipeline.effectiveName
      simp only [hpq.name_eq, hpq.resolve_eq_resolve]
    rw [List.foldlM_cons, List.foldlM_cons, hstep]
    exact bind_congr_ok fun all _ => ih all

/-! ### Outputs -/

theorem isOfOutput_of_addOutput {known : Outputs} {o : DeclaredOutput} {fault : Fault}
    (h : addOutput known o = .error fault) : fault.isOfOutput := by
  unfold addOutput at h
  split_ifs at h <;> cases h <;> rfl

/-- The phase of the outputs reports outputs only. -/
theorem isOfOutput_of_foldlM_addOutput {known : Outputs} {outputs : List DeclaredOutput}
    {fault : Fault} (h : outputs.foldlM addOutput known = .error fault) : fault.isOfOutput := by
  induction outputs generalizing known with
  | nil => cases h
  | cons o rest ih =>
    rcases bind_eq_error_iff.1 h with hstep | ⟨known', _, hrest⟩
    · exact isOfOutput_of_addOutput hstep
    · exact ih hrest

/-- The order of the outputs decides only which bad one is reported. -/
theorem foldlM_addOutput_of_perm {outputs outputs' : List DeclaredOutput}
    (h : outputs.Perm outputs') :
    outputs.foldlM addOutput ∅ = outputs'.foldlM addOutput ∅ ∨
      ∃ fault fault', outputs.foldlM addOutput ∅ = .error fault ∧
        outputs'.foldlM addOutput ∅ = .error fault' ∧ fault.isOfOutput ∧ fault'.isOfOutput := by
  have haccepted : (∃ known, outputs.foldlM addOutput ∅ = .ok known) ↔
      ∃ known, outputs'.foldlM addOutput ∅ = .ok known := by
    rw [exists_foldlM_addOutput_iff .empty, exists_foldlM_addOutput_iff .empty,
      (h.map DeclaredOutput.name).nodup_iff]
    simp only [h.mem_iff]
  cases hk : outputs.foldlM addOutput ∅ with
  | ok known =>
    obtain ⟨known', hk'⟩ := haccepted.1 ⟨known, hk⟩
    rw [hk']
    refine .inl (congrArg _ ?_)
    exact (Outputs.Holds.of_foldlM_addOutput .empty hk).eq_of_perm (.of_foldlM_addOutput .empty hk')
      (by simpa using h.map DeclaredOutput.toOutput)
  | error fault =>
    cases hk' : outputs'.foldlM addOutput ∅ with
    | ok known' =>
      obtain ⟨known, hknown⟩ := haccepted.2 ⟨known', hk'⟩
      rw [hk] at hknown
      cases hknown
    | error fault' =>
      exact .inr ⟨fault, fault', rfl, rfl, isOfOutput_of_foldlM_addOutput hk,
        isOfOutput_of_foldlM_addOutput hk'⟩

/-! ### The phases together -/

namespace Topology

variable {t u : Topology}

/-- Two topologies that declare the same are resolved alike, or both have a bad output. -/
theorem Rearranges.resolve_eq_or (h : t.Rearranges u) :
    t.resolve = u.resolve ∨
      ∃ fault fault', t.resolve = .error fault ∧ u.resolve = .error fault' ∧
        fault.isOfOutput ∧ fault'.isOfOutput := by
  unfold resolve
  rcases foldlM_addOutput_of_perm h.outputs with heq | ⟨fault, fault', hf, hf', ho, ho'⟩
  · rw [heq]
    refine .inl (bind_congr_ok fun known _ => ?_)
    rw [foldlM_addPipeline_of_restates h.pipelines]
  · exact .inr ⟨fault, fault', bind_eq_error_iff.2 (.inl hf), bind_eq_error_iff.2 (.inl hf'),
      ho, ho'⟩

/-- **The order of outputs and the repetition of references do not matter.** If one of two
topologies that declare the same has a plan then the other has this plan, and every configuration
is that of the other, or fails alike. If neither has a plan, the faults differ only where both
tell of the declaration of an output. -/
theorem resolve_rearranged (h : t.Rearranges u) :
    ((∃ plan, t.resolve = .ok plan) ↔ ∃ plan, u.resolve = .ok plan) ∧
    (∀ plan, t.resolve = .ok plan → u.resolve = .ok plan ∧
      ∀ secrets settings, u.configuration secrets settings = t.configuration secrets settings) ∧
    ∀ fault fault', t.resolve = .error fault → u.resolve = .error fault' → fault ≠ fault' →
      fault.isOfOutput ∧ fault'.isOfOutput := by
  rcases h.resolve_eq_or with heq | ⟨first, first', hf, hf', ho, ho'⟩
  · refine ⟨by rw [heq], fun plan hplan => ⟨heq ▸ hplan, fun secrets settings => ?_⟩, ?_⟩
    · rw [configuration, configuration, heq]
    · intro fault fault' hfault hfault' hne
      rw [heq, hfault'] at hfault
      cases hfault
      exact absurd rfl hne
  · simp only [hf, hf']
    refine ⟨by simp, by simp, ?_⟩
    rintro fault fault' ⟨⟩ ⟨⟩ _
    exact ⟨ho, ho'⟩

/-- Of two bad outputs the first is reported. -/
example :
    Topology.resolve { outputs := [{ name := "web", type := .http },
      { name := "logs", type := .googleCloudLogging }] } = .error (.missingUrl "web") ∧
    Topology.resolve { outputs := [{ name := "logs", type := .googleCloudLogging },
      { name := "web", type := .http }] } = .error (.missingGoogleCloudLogging "logs") := by
  decide +kernel

end Topology

/-- A pipeline to two outputs. -/
def tidy : Topology where
  pipelines := [{ name := "p", inputs := ["audit", "application"], outputs := ["web", "logs"] }]
  outputs :=
    [{ name := "logs", type := .loki, url := some "http://loki" },
      { name := "web", type := .http, url := some "http://web" }]

/-- The same, written carelessly. -/
def untidy : Topology where
  pipelines :=
    [{ name := "p", inputs := ["audit", "audit", "application", "audit"],
       outputs := ["web", "logs", "web"] }]
  outputs :=
    [{ name := "web", type := .http, url := some "http://web" },
      { name := "logs", type := .loki, url := some "http://loki" }]

/-- The plan of both. -/
def tidyPlan : Plan where
  pipelines := [⟨"p", "p", [.audit, .application], ["web", "logs"]⟩]
  outputs := (∅ : Outputs)
    |>.insert "logs" ⟨"logs", "logs", .loki, some "http://loki", none, none⟩
    |>.insert "web" ⟨"web", "web", .http, some "http://web", none, none⟩

theorem resolve_rearranged_untidy :
    tidy.Rearranges untidy ∧ tidy.resolve = .ok tidyPlan ∧ untidy.resolve = .ok tidyPlan ∧
      ∀ secrets settings,
        untidy.configuration secrets settings = tidy.configuration secrets settings := by
  have hinputs : Repeats ["audit", "application"] ["audit", "audit", "application", "audit"] :=
    @Repeats.again _ _ ["audit", "audit", "application"] [] "audit"
      (@Repeats.again _ _ ["audit"] ["application"] "audit" .refl (by simp)) (by simp)
  have houtputs : Repeats ["web", "logs"] ["web", "logs", "web"] :=
    @Repeats.again _ _ ["web", "logs"] [] "web" .refl (by simp)
  have h : tidy.Rearranges untidy :=
    ⟨.cons ⟨rfl, hinputs, houtputs⟩ .nil, .swap _ _ _⟩
  have hplan : tidy.resolve = .ok tidyPlan := by decide +kernel
  exact ⟨h, hplan, (Topology.resolve_rearranged h).2.1 _ hplan⟩

end LogForwarding
