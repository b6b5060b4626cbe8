/-
# Outputs that no pipeline names

An output can be declared without any pipeline that names it. It is checked
with the others, but it leaves no trace: without it the topology has a plan
that lacks this output only, and every configuration is the same text or fails
alike. Nor does it matter whether its secret is there.

The reason is that a configuration looks outputs up by the names in its
pipelines and in no other way (`Plan.elements_congr`), and that whatever is
asked of outputs at resolution holds of fewer outputs too.

Key definitions: `Topology.pruned`, `Topology.keptSecrets`, `Plan.pruned`.
Key theorems: `Plan.elements_congr`, `Topology.allOutputs_pruned`,
`Topology.resolve_pruned`, `Topology.configuration_pruned`.
-/
import LogForwarding.Proofs.Independence

namespace LogForwarding

/-- Under a name that is kept stands what stood there before. -/
theorem getElem?_filter_of_kept {β : Type} {keep : String → Bool} {name : String}
    (map : Std.ExtTreeMap String β) (h : keep name = true) :
    (map.filter fun name _ => keep name)[name]? = map[name]? := by
  rw [Std.ExtTreeMap.getElem?_filter']
  cases map[name]? with
  | none => rfl
  | some b => rw [Option.filter_some, if_pos h]

namespace Plan

/-- The plan, with no other outputs than those that pipelines name. -/
def pruned (plan : Plan) : Plan where
  pipelines := plan.pipelines
  outputs := plan.outputs.filter fun name _ => plan.pipelines.any (name ∈ ·.outputs)

variable {plan plan' : Plan}

/-- The outputs that pipelines name are found by their names. -/
theorem referenced_congr (hp : plan.pipelines = plan'.pipelines)
    (ho : ∀ p ∈ plan.pipelines, ∀ name ∈ p.outputs, plan.outputs[name]? = plan'.outputs[name]?) :
    plan.referenced = plan'.referenced := by
  unfold referenced
  rw [← hp]
  refine List.foldl_ext _ _ _ fun found name hname => ?_
  obtain ⟨p, hmem, hname⟩ := List.mem_flatMap.1 hname
  rw [addReferenced, addReferenced, ho p hmem name hname]

/-- What a plan holds beside the outputs that its pipelines name has no effect. -/
theorem elements_congr (hp : plan.pipelines = plan'.pipelines)
    (ho : ∀ p ∈ plan.pipelines, ∀ name ∈ p.outputs, plan.outputs[name]? = plan'.outputs[name]?)
    (secrets : Secrets) (settings : Settings) :
    plan.elements secrets settings = plan'.elements secrets settings := by
  have hsink : plan.sink secrets settings = plan'.sink secrets settings := by
    funext o
    rw [sink, sink, readers, readers, hp]
  rw [elements, elements, sinks, sinks, referenced_congr hp ho, hsink, hp]

/-- In particular, that of the outputs that no pipeline names. -/
theorem elements_pruned (plan : Plan) (secrets : Secrets) (settings : Settings) :
    plan.pruned.elements secrets settings = plan.elements secrets settings := by
  have hpipelines : plan.pruned.pipelines = plan.pipelines := rfl
  refine elements_congr hpipelines (fun p hp name hname => ?_) secrets settings
  exact getElem?_filter_of_kept _ (List.any_eq_true.2 ⟨p, hp, decide_eq_true hname⟩)

end Plan

namespace Topology

/-- The topology, without the outputs that no pipeline names. -/
def pruned (t : Topology) : Topology where
  pipelines := t.pipelines
  outputs := t.outputs.filter fun o => t.pipelines.any (o.name ∈ ·.outputs)

/-- The secrets of outputs that some pipeline names. -/
def keptSecrets (t : Topology) (secrets : Secrets) : Secrets :=
  secrets.filter fun name _ => name ∈ t.namedSecrets

variable {t : Topology} {plan : Plan}

/-! ### What is left is well formed -/

/-- The log store is not lost: it is there only if some pipeline names it. -/
theorem allOutputs_pruned (t : Topology) :
    t.pruned.allOutputs = t.allOutputs.filter fun o => t.pipelines.any (o.name ∈ ·.outputs) := by
  have hlog : t.NamesLogStore ↔ t.pipelines.any (Output.logStore.name ∈ ·.outputs) = true := by
    simp only [List.any_eq_true, decide_eq_true_eq]
    rfl
  have hdeclared : t.pruned.outputs.map DeclaredOutput.toOutput =
      (t.outputs.map DeclaredOutput.toOutput).filter
        fun o => t.pipelines.any (o.name ∈ ·.outputs) := by
    rw [List.filter_map]
    rfl
  have hsame : t.pruned.NamesLogStore ↔ t.NamesLogStore := Iff.rfl
  rw [allOutputs, allOutputs, hdeclared, List.filter_append]
  simp only [hsame]
  congr 1
  split_ifs with h
  · rw [List.filter_singleton, hlog.1 h, cond_true]
  · rfl

theorem WellFormed.pruned (h : t.WellFormed) : t.pruned.WellFormed := by
  have hdeclared : t.pruned.outputs.Sublist t.outputs := List.filter_sublist
  have hall : t.pruned.allOutputs.Sublist t.allOutputs :=
    allOutputs_pruned t ▸ List.filter_sublist
  refine ⟨h.outputNames_nodup.sublist (hdeclared.map _), fun o ho => ?_, fun o ho => ?_,
    h.pipelineNames_nodup, fun p hp => ?_, h.componentIds_nodup.sublist ?_, ?_⟩
  · exact h.not_reserved o (hdeclared.subset ho)
  · exact h.targets o (hdeclared.subset ho)
  · -- What a pipeline names is kept for that reason.
    have hrefs := h.references p hp
    refine { hrefs with outputs := fun name hname => (hrefs.outputs name hname).imp_right ?_ }
    intro hmem
    obtain ⟨o, ho, rfl⟩ := List.mem_map.1 hmem
    have hnamed : t.pipelines.any (o.name ∈ ·.outputs) = true :=
      List.any_eq_true.2 ⟨p, hp, decide_eq_true hname⟩
    exact List.mem_map_of_mem (List.mem_filter.2 ⟨ho, hnamed⟩)
  · exact ((hall.map _).append_left _).append_right _
  · have hsecrets := (hall.filterMap Output.secret).subset
    exact fun a ha b hb => h.distinguished a (hsecrets ha) b (hsecrets hb)

/-! ### What is left is resolved as before -/

theorem IsPlan.pruned (h : t.IsPlan plan) : t.pruned.IsPlan plan.pruned := by
  refine ⟨h.pipelines, fun name o => ?_⟩
  rw [allOutputs_pruned, List.mem_filter, Plan.pruned, Std.ExtTreeMap.getElem?_filter',
    Option.filter_eq_some_iff, h.outputs name o, h.pipelines.any_mem_outputs]
  constructor
  · rintro ⟨⟨ho, rfl⟩, hnamed⟩
    exact ⟨⟨ho, hnamed⟩, rfl⟩
  · rintro ⟨⟨ho, hnamed⟩, rfl⟩
    exact ⟨⟨ho, rfl⟩, hnamed⟩

/-- Without the outputs that no pipeline names, there is the plan without them. -/
theorem resolve_pruned (h : t.resolve = .ok plan) : t.pruned.resolve = .ok plan.pruned := by
  obtain ⟨plan', hplan'⟩ := (wellFormed_of_resolve h).pruned.exists_resolve
  rw [hplan', (isPlan_of_resolve hplan').eq (isPlan_of_resolve h).pruned]

theorem namedSecrets_pruned (t : Topology) : t.pruned.namedSecrets = t.namedSecrets := by
  unfold namedSecrets
  rw [allOutputs_pruned, List.filter_filter]
  simp only [pruned, Bool.and_self]

/-- Other secrets than those of outputs that pipelines name can be left out. -/
theorem configuration_keptSecrets (t : Topology) (secrets : Secrets) (settings : Settings) :
    t.configuration (t.keptSecrets secrets) settings = t.configuration secrets settings := by
  refine configuration_eq_of_alike fun name hname => ?_
  have hkept : (t.keptSecrets secrets)[name]? = secrets[name]? :=
    getElem?_filter_of_kept _ (decide_eq_true hname)
  rw [hkept]
  cases secrets[name]? with
  | none => exact .none
  | some secret => exact .some (.refl _ secret)

/-- **What no pipeline names has no effect.** A topology that has a plan has one without the
outputs that no pipeline names; and without them, and without the secrets that only they have,
every configuration is the same text, or fails with the same fault. -/
theorem configuration_pruned (h : t.resolve = .ok plan) :
    t.pruned.resolve = .ok plan.pruned ∧
      ∀ secrets settings, t.pruned.configuration (t.keptSecrets secrets) settings =
        t.configuration secrets settings := by
  have hpruned := resolve_pruned h
  refine ⟨hpruned, fun secrets settings => ?_⟩
  calc t.pruned.configuration (t.keptSecrets secrets) settings
    _ = t.pruned.configuration secrets settings := by
      rw [keptSecrets, ← namedSecrets_pruned]
      exact configuration_keptSecrets t.pruned secrets settings
    _ = t.configuration secrets settings := by
      unfold configuration
      rw [hpruned, h]
      exact congrArg (· >>= document) (plan.elements_pruned secrets settings)

/-- Two outputs and the log store, of which only the spare output is not named. -/
def wasteful : Topology where
  pipelines := [{ name := "apps", inputs := ["application"], outputs := ["hot", "default"] }]
  outputs :=
    [{ name := "spare", type := .loki, url := some "http://loki", secret := some "key" },
      { name := "hot", type := .http, url := some "http://hot", secret := some "login" }]

/-- Its plan. -/
def wastefulPlan : Plan where
  pipelines := [⟨"apps", "apps", [.application], ["hot", "default"]⟩]
  outputs := (∅ : Outputs)
    |>.insert "spare" ⟨"spare", "spare", .loki, some "http://loki", some "key", none⟩
    |>.insert "hot" ⟨"hot", "hot", .http, some "http://hot", some "login", none⟩
    |>.insert "default" Output.logStore

/-- The spare output, its secret and one that no output has can go; the secret of the log store
has to stay. -/
theorem configuration_pruned_wasteful :
    let secrets : Secrets := (∅ : Secrets)
      |>.insert "login" (login "one" "old" "a")
      |>.insert "key" ∅
      |>.insert "collector" ∅
      |>.insert "unused" ∅
    wasteful.resolve = .ok wastefulPlan ∧
      wasteful.pruned.outputs.map DeclaredOutput.name = ["hot"] ∧
      (wasteful.keptSecrets secrets).keys = ["collector", "login"] ∧
      wasteful.pruned.resolve = .ok wastefulPlan.pruned ∧
      wasteful.pruned.configuration (wasteful.keptSecrets secrets) {} =
        wasteful.configuration secrets {} := by
  intro secrets
  have hplan : wasteful.resolve = .ok wastefulPlan := by decide +kernel
  obtain ⟨hpruned, hsame⟩ := configuration_pruned hplan
  exact ⟨hplan, by decide +kernel, by decide +kernel, hpruned, hsame secrets {}⟩

end Topology

end LogForwarding
