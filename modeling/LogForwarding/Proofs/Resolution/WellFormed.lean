/-
# Which topologies can be resolved

A topology is well formed if what it declares fits together, whatever the
order in which it is looked at. These topologies have a plan, and no others:
the order of the phases of resolution decides which problem is reported, but
not whether there is one. The plan holds the pipelines and outputs that are
declared, and the log store if a pipeline names it.

Key definitions: `Topology.allOutputs`, `Topology.componentIds`,
`Topology.WellFormed`, `Topology.IsPlan`.
Key theorems: `Topology.WellFormed.exists_resolve`, `Topology.isPlan_of_resolve`,
`Topology.resolve_iff_wellFormed`.
-/
import LogForwarding.Proofs.Resolution.Phases
import Mathlib.Data.List.Perm.Basic

namespace LogForwarding

namespace Topology

/-- Some pipeline names the log store of the cluster. -/
def NamesLogStore (t : Topology) : Prop := ∃ p ∈ t.pipelines, defaultOutputName ∈ p.outputs

instance (t : Topology) : Decidable t.NamesLogStore :=
  inferInstanceAs (Decidable (∃ p ∈ t.pipelines, defaultOutputName ∈ p.outputs))

/-- The declared outputs, and the log store if some pipeline names it. -/
def allOutputs (t : Topology) : List Output :=
  t.outputs.map DeclaredOutput.toOutput ++ if t.NamesLogStore then [Output.logStore] else []

/-- The names of the pipelines, some of them made from positions. -/
def pipelineNames (t : Topology) : List String := effectiveNames t.pipelines 0

/-- The component ids of the pipelines and outputs. -/
def ownIds (t : Topology) : List String :=
  t.pipelineNames.map componentId ++ t.allOutputs.map (componentId ·.name)

/-- All component ids. -/
def componentIds (t : Topology) : List String := t.ownIds ++ builtinIds

/-- What is declared fits together. -/
structure WellFormed (t : Topology) : Prop where
  /-- No two outputs are declared under one name. -/
  outputNames_nodup : (t.outputs.map DeclaredOutput.name).Nodup
  /-- None is declared under the name of the log store. -/
  not_reserved : ∀ o ∈ t.outputs, o.name ≠ defaultOutputName
  /-- Each has what its type asks for. -/
  targets : ∀ o ∈ t.outputs, o.HasTarget
  /-- No two pipelines have one name. -/
  pipelineNames_nodup : t.pipelineNames.Nodup
  /-- Each refers to inputs and outputs that there are. -/
  references : ∀ p ∈ t.pipelines, p.Resolvable (t.outputs.map DeclaredOutput.name)
  /-- No two components have one id. -/
  componentIds_nodup : t.componentIds.Nodup
  /-- No two secrets have one environment id. -/
  distinguished : Distinguished (t.allOutputs.filterMap Output.secret)

/-- The plan says what the topology declares. -/
structure IsPlan (t : Topology) (plan : Plan) : Prop where
  /-- The pipelines stand in the order of their declaration. -/
  pipelines : ResolveAll plan.pipelines t.pipelines 0
  /-- Each output stands under its own name. -/
  outputs : plan.outputs.Holds t.allOutputs

end Topology

/-! ### The outputs of a plan -/

/-- Outputs that stand under their own names are listed in some order. -/
theorem Outputs.Holds.list_perm {outputs : Outputs} {list : List Output} (h : outputs.Holds list)
    (hn : (list.map Output.name).Nodup) : outputs.list.Perm list := by
  have hnodup : outputs.list.Nodup := by
    refine List.pairwise_map.2 (Std.ExtTreeMap.distinct_keys_toList.imp_of_mem ?_)
    rintro ⟨a, o⟩ ⟨b, o'⟩ ha hb hab rfl
    rw [Std.ExtTreeMap.mem_toList_iff_getElem?_eq_some] at ha hb
    have heq : a = b := ((h a o).1 ha).2.symm.trans ((h b o).1 hb).2
    exact hab (Std.LawfulEqCmp.compare_eq_iff_eq.2 heq)
  refine (List.perm_ext_iff_of_nodup hnodup (.of_map Output.name hn)).2 fun o => ?_
  rw [Outputs.mem_list]
  constructor
  · rintro ⟨name, ho⟩
    exact ((h name o).1 ho).1
  · exact fun ho => ⟨o.name, (h o.name o).2 ⟨ho, rfl⟩⟩

namespace Topology

variable {t : Topology}

theorem mem_allOutputs {o : Output} :
    o ∈ t.allOutputs ↔
      (∃ d ∈ t.outputs, d.toOutput = o) ∨ t.NamesLogStore ∧ o = Output.logStore := by
  unfold allOutputs
  split_ifs with h <;> simp [h]

/-- Every output has the component id that is made from its name. -/
theorem id_eq_of_mem_allOutputs {o : Output} (h : o ∈ t.allOutputs) :
    o.id = componentId o.name := by
  rcases mem_allOutputs.1 h with ⟨d, _, rfl⟩ | ⟨_, rfl⟩
  · rfl
  · decide

theorem allOutputs_names_nodup (hn : (t.outputs.map DeclaredOutput.name).Nodup)
    (hd : ∀ o ∈ t.outputs, o.name ≠ defaultOutputName) : (t.allOutputs.map Output.name).Nodup := by
  have hnames : (t.outputs.map DeclaredOutput.toOutput).map Output.name =
      t.outputs.map DeclaredOutput.name := by
    rw [List.map_map]
    rfl
  unfold allOutputs
  rw [List.map_append, hnames]
  split_ifs
  · rw [List.nodup_append']
    refine ⟨hn, by simp, ?_⟩
    rw [List.map_singleton, List.disjoint_singleton]
    intro hmem
    obtain ⟨o, ho, hname⟩ := List.mem_map.1 hmem
    exact hd o ho hname
  · simpa using hn

/-- With the log store, the outputs of the plan are all outputs. -/
theorem holds_withLogStore {known : Outputs} {pipelines : List Pipeline}
    (hd : ∀ o ∈ t.outputs, o.name ≠ defaultOutputName)
    (hk : known.Holds (t.outputs.map DeclaredOutput.toOutput))
    (hp : ResolveAll pipelines t.pipelines 0) :
    (withLogStore pipelines known).Holds t.allOutputs := by
  have hnames : pipelines.any (defaultOutputName ∈ ·.outputs) = true ↔ t.NamesLogStore := by
    rw [hp.any_mem_outputs, List.any_eq_true]
    simp [NamesLogStore]
  have hfresh : Output.logStore.name ∉
      (t.outputs.map DeclaredOutput.toOutput).map Output.name := by
    intro hmem
    obtain ⟨_, ho, hname⟩ := List.mem_map.1 hmem
    obtain ⟨d, hdecl, rfl⟩ := List.mem_map.1 ho
    exact hd d hdecl hname
  unfold withLogStore allOutputs
  simp only [hnames]
  split_ifs
  · exact hk.insert hfresh
  · rwa [List.append_nil]

/-- The ids of the plan are those of what is declared, in some order. -/
theorem planIds_perm {outputs : Outputs} {pipelines : List Pipeline}
    (ho : outputs.list.Perm t.allOutputs) (hp : ResolveAll pipelines t.pipelines 0) :
    (pipelines.map Pipeline.id ++ outputs.list.map Output.id).Perm t.ownIds := by
  have hids : t.allOutputs.map Output.id = t.allOutputs.map (componentId ·.name) :=
    List.map_congr_left fun o => id_eq_of_mem_allOutputs
  rw [hp.map_id, ownIds, ← hids]
  exact (ho.map Output.id).append_left _

/-- The component ids are accepted if and only if they differ. -/
theorem checkIds_iff {outputs : Outputs} {pipelines : List Pipeline}
    (ho : outputs.list.Perm t.allOutputs) (hp : ResolveAll pipelines t.pipelines 0) :
    checkIds builtinOwners (neededIds pipelines outputs) = .ok () ↔ t.componentIds.Nodup := by
  have hneeded : (neededIds pipelines outputs).map Prod.fst =
      pipelines.map Pipeline.id ++ outputs.list.map Output.id := by
    simp [neededIds, Function.comp_def]
  have hperm := planIds_perm ho hp
  have hbuiltin : builtinIds.Nodup := by decide
  rw [checkIds_eq_ok_iff, hneeded, hperm.nodup_iff, componentIds, List.nodup_append']
  simp only [hperm.mem_iff, mem_builtinOwners, hbuiltin, true_and]
  rfl

/-- The secrets are accepted if and only if they are distinguished. -/
theorem checkEnvironmentIds_iff {outputs : Outputs} (ho : outputs.list.Perm t.allOutputs) :
    checkEnvironmentIds ∅ (outputs.list.filterMap Output.secret) = .ok () ↔
      Distinguished (t.allOutputs.filterMap Output.secret) := by
  have hperm := ho.filterMap Output.secret
  rw [checkEnvironmentIds_eq_ok_iff]
  simp [Distinguished, hperm.mem_iff]

/-! ### The phases together -/

/-- A topology has a plan if every phase succeeds. -/
theorem resolve_eq_ok_iff {plan : Plan} :
    t.resolve = .ok plan ↔
      ∃ known, t.outputs.foldlM addOutput ∅ = .ok known ∧
        ∃ pipelines, t.pipelines.foldlM (addPipeline known) [] = .ok pipelines ∧
          checkIds builtinOwners (neededIds pipelines (withLogStore pipelines known)) = .ok () ∧
          checkEnvironmentIds ∅ ((withLogStore pipelines known).list.filterMap Output.secret) =
            .ok () ∧
          plan = ⟨pipelines, withLogStore pipelines known⟩ := by
  unfold resolve
  simp only [bind_eq_ok_iff]
  constructor
  · rintro ⟨known, hk, pipelines, hp, _, hi, _, he, hplan⟩
    cases hplan
    exact ⟨known, hk, pipelines, hp, hi, he, rfl⟩
  · rintro ⟨known, hk, pipelines, hp, hi, he, rfl⟩
    exact ⟨known, hk, pipelines, hp, (), hi, (), he, rfl⟩

/-- The names under which declared outputs are known. -/
theorem mem_known_iff {known : Outputs} (hk : known.Holds (t.outputs.map DeclaredOutput.toOutput))
    (name : String) : name ∈ known ↔ name ∈ t.outputs.map DeclaredOutput.name := by
  rw [hk.mem_iff, List.map_map]
  rfl

/-- What the phases find is what the topology declares. -/
theorem isPlan_of_resolve {plan : Plan} (h : t.resolve = .ok plan) : t.IsPlan plan := by
  obtain ⟨known, hk, pipelines, hp, _, _, rfl⟩ := resolve_eq_ok_iff.1 h
  obtain ⟨hall, _, _⟩ := (exists_foldlM_addOutput_iff .empty).1 ⟨known, hk⟩
  obtain ⟨_, rfl, hp⟩ := resolveAll_of_foldlM_addPipeline hp
  exact ⟨hp, holds_withLogStore (fun o ho => (hall o ho).1) (.of_foldlM_addOutput .empty hk) hp⟩

/-- Only one plan says what the topology declares. -/
theorem IsPlan.eq {plan plan' : Plan} (h : t.IsPlan plan) (h' : t.IsPlan plan') : plan = plan' := by
  have hpipelines : plan.pipelines = plan'.pipelines := h.pipelines.eq h'.pipelines
  have houtputs : plan.outputs = plan'.outputs := h.outputs.eq_of_perm h'.outputs (.refl _)
  cases plan
  cases plan'
  rw [Plan.mk.injEq]
  exact ⟨hpipelines, houtputs⟩

theorem wellFormed_of_resolve {plan : Plan} (h : t.resolve = .ok plan) : t.WellFormed := by
  obtain ⟨known, hk, pipelines, hp, hi, he, rfl⟩ := resolve_eq_ok_iff.1 h
  obtain ⟨hall, hnodup, _⟩ := (exists_foldlM_addOutput_iff .empty).1 ⟨known, hk⟩
  have hknown := mem_known_iff (.of_foldlM_addOutput .empty hk)
  obtain ⟨hrefs, hnames, _⟩ := (exists_foldlM_addPipeline_iff hknown).1 ⟨pipelines, hp⟩
  have hd : ∀ o ∈ t.outputs, o.name ≠ defaultOutputName := fun o ho => (hall o ho).1
  have hplan := isPlan_of_resolve h
  have hperm := hplan.outputs.list_perm (allOutputs_names_nodup hnodup hd)
  exact {
    outputNames_nodup := hnodup
    not_reserved := hd
    targets := fun o ho => (hall o ho).2
    pipelineNames_nodup := hnames
    references := hrefs
    componentIds_nodup := (checkIds_iff hperm hplan.pipelines).1 hi
    distinguished := (checkEnvironmentIds_iff hperm).1 he }

theorem WellFormed.exists_resolve (h : t.WellFormed) : ∃ plan, t.resolve = .ok plan := by
  obtain ⟨known, hk⟩ := (exists_foldlM_addOutput_iff .empty).2
    ⟨fun o ho => ⟨h.not_reserved o ho, h.targets o ho⟩, h.outputNames_nodup, by simp⟩
  have hholds : known.Holds (t.outputs.map DeclaredOutput.toOutput) :=
    .of_foldlM_addOutput .empty hk
  have hpipelines : ∃ all, t.pipelines.foldlM (addPipeline known) [] = .ok all :=
    (exists_foldlM_addPipeline_iff (mem_known_iff hholds)).2
      ⟨h.references, h.pipelineNames_nodup, by simp⟩
  obtain ⟨pipelines, hp⟩ := hpipelines
  obtain ⟨_, rfl, hall⟩ := resolveAll_of_foldlM_addPipeline hp
  have hperm := (holds_withLogStore h.not_reserved hholds hall).list_perm
    (allOutputs_names_nodup h.outputNames_nodup h.not_reserved)
  exact ⟨_, resolve_eq_ok_iff.2 ⟨known, hk, _, hp, (checkIds_iff hperm hall).2 h.componentIds_nodup,
    (checkEnvironmentIds_iff hperm).2 h.distinguished, rfl⟩⟩

/-- **Resolution decides well-formedness.** A topology has a plan if and only if it is well formed,
and the plan says what it declares. -/
theorem resolve_iff_wellFormed (t : Topology) :
    ((∃ plan, t.resolve = .ok plan) ↔ t.WellFormed) ∧
      ∀ plan, t.resolve = .ok plan → t.IsPlan plan :=
  ⟨⟨fun ⟨_, h⟩ => wellFormed_of_resolve h, WellFormed.exists_resolve⟩,
    fun _ => isPlan_of_resolve⟩

/-- A name that is made from a position can be that of another pipeline. -/
example : Topology.resolve
    { pipelines := [{ name := "pipeline_1", inputs := ["audit"], outputs := ["default"] },
        { inputs := ["audit"], outputs := ["default"] }] } =
      .error (.duplicatePipeline "pipeline_1") := by
  decide +kernel

end Topology

end LogForwarding
