/-
# Plans written back as topologies

A plan can be written down again as a topology: each pipeline under the name
that it has by now, with the names of its inputs and outputs, and each output
as it was declared, in the order of names. The log store is left out, as it
cannot be declared; it comes back because a pipeline names it.

This topology is resolved into the plan that it was written from. Whatever
resolution has added or collapsed passes a second time and stays as it is: a
name that was made from a position is an ordinary name now, references without
repetitions have none to lose, and the ids and secrets that are compared are
those of the first time, in another order.

Key definitions: `Pipeline.declared`, `Output.declared`, `Plan.declared`.
Key theorems: `ResolveAll.declared`, `Topology.outputs_declared_perm`,
`Topology.WellFormed.declared`, `Topology.resolve_declared`.
-/
import LogForwarding.Proofs.Resolution.WellFormed

namespace LogForwarding

/-- The pipeline, with its name and references as a topology states them. -/
def Pipeline.declared (q : Pipeline) : DeclaredPipeline where
  name := q.name
  inputs := q.inputs.map Input.name
  outputs := q.outputs

/-- The output as a topology states it: its id goes without saying. -/
def Output.declared (o : Output) : DeclaredOutput where
  name := o.name
  type := o.type
  url := o.url
  secret := o.secret
  googleCloudLogging := o.googleCloudLogging

/-- The plan as a topology: all its pipelines, and its outputs but for the log store, in increasing
order of their names. -/
def Plan.declared (plan : Plan) : Topology where
  pipelines := plan.pipelines.map Pipeline.declared
  outputs := (Outputs.list (plan.outputs.erase defaultOutputName)).map Output.declared

/-! ### Pipelines -/

/-- A pipeline is what it states of itself, wherever it stands. -/
theorem Pipeline.Resolves.declared {q : Pipeline} {p : DeclaredPipeline} {position : Nat}
    (h : q.Resolves p (p.effectiveName position)) (i : Nat) :
    q.Resolves q.declared (q.declared.effectiveName i) := by
  have hne : q.name ≠ "" := by
    rw [h.name_eq]
    exact p.effectiveName_ne position
  have hname : q.declared.effectiveName i = q.name := if_neg hne
  rw [hname]
  refine ⟨rfl, ?_, .of_nodup h.inputs.nodup, .of_nodup h.outputs.nodup⟩
  rw [h.id_eq, h.name_eq]

namespace ResolveAll

variable {qs : List Pipeline} {ps : List DeclaredPipeline} {position : Nat}

/-- So are all of them. -/
theorem declared (h : ResolveAll qs ps position) :
    ResolveAll qs (qs.map Pipeline.declared) position := by
  induction ps generalizing qs position with
  | nil =>
    cases h
    exact .nil
  | cons p ps ih =>
    obtain ⟨q, qs, hq, hqs, rfl⟩ := List.forall₂_cons_left_iff.1 h
    exact .cons (hq.declared position) (ih hqs)

theorem map_name (h : ResolveAll qs ps position) :
    qs.map Pipeline.name = effectiveNames ps position :=
  (map_eq_map_of_forall₂ (h.imp fun _ _ hq => hq.name_eq.symm)).symm

/-- The names are not made a second time. -/
theorem effectiveNames_declared (h : ResolveAll qs ps position) :
    effectiveNames (qs.map Pipeline.declared) position = effectiveNames ps position :=
  h.declared.map_name.symm.trans h.map_name

end ResolveAll

/-- What could be resolved of the declared pipeline can be resolved again. -/
theorem DeclaredPipeline.Resolvable.declared {p : DeclaredPipeline} {q : Pipeline} {name : String}
    {outputs outputs' : List String} (h : p.Resolvable outputs) (hq : q.Resolves p name)
    (ho : outputs ⊆ outputs') : q.declared.Resolvable outputs' where
  inputs_ne_nil := hq.inputs.ne_nil h.inputs_ne_nil
  outputs_ne_nil := hq.outputs.ne_nil h.outputs_ne_nil
  inputs input hi := h.inputs input ((hq.inputs.mem_iff input).1 hi)
  outputs output hn := (h.outputs output ((hq.outputs.mem_iff output).1 hn)).imp_right (@ho output)

/-! ### Outputs -/

theorem Outputs.Holds.erase {outputs : Outputs} {list : List Output} (h : outputs.Holds list)
    (name : String) :
    Outputs.Holds (Std.ExtTreeMap.erase outputs name) (list.filter (·.name ≠ name)) := by
  intro key o
  rw [Std.ExtTreeMap.getElem?_erase, List.mem_filter, decide_eq_true_eq]
  by_cases hkey : name = key
  · rw [if_pos (Std.LawfulEqCmp.compare_eq_iff_eq.2 hkey)]
    exact iff_of_false nofun fun ho => ho.1.2 (ho.2.trans hkey.symm)
  · rw [if_neg fun hc => hkey (Std.LawfulEqCmp.compare_eq_iff_eq.1 hc), h key o]
    constructor
    · rintro ⟨ho, rfl⟩
      exact ⟨⟨ho, Ne.symm hkey⟩, rfl⟩
    · rintro ⟨⟨ho, _⟩, hname⟩
      exact ⟨ho, hname⟩

theorem Outputs.Holds.of_perm {outputs : Outputs} {list list' : List Output}
    (h : outputs.Holds list) (hp : list.Perm list') : outputs.Holds list' :=
  fun name o => (h name o).trans (and_congr_left fun _ => hp.mem_iff)

namespace Topology

variable {t : Topology} {plan : Plan}

/-- All outputs but the log store are the declared ones. -/
theorem filter_allOutputs (hd : ∀ o ∈ t.outputs, o.name ≠ defaultOutputName) :
    t.allOutputs.filter (·.name ≠ defaultOutputName) = t.outputs.map DeclaredOutput.toOutput := by
  have hkept : (t.outputs.map DeclaredOutput.toOutput).filter (·.name ≠ defaultOutputName) =
      t.outputs.map DeclaredOutput.toOutput := by
    refine List.filter_eq_self.2 fun o ho => ?_
    obtain ⟨d, hdecl, rfl⟩ := List.mem_map.1 ho
    exact decide_eq_true (hd d hdecl)
  rw [allOutputs, List.filter_append, hkept]
  split_ifs
  · exact List.append_nil _
  · exact List.append_nil _

/-- The outputs are written back as they were declared, in some order. -/
theorem outputs_declared_perm (hw : t.WellFormed) (h : t.IsPlan plan) :
    plan.declared.outputs.Perm t.outputs := by
  have hholds := h.outputs.erase defaultOutputName
  rw [filter_allOutputs hw.not_reserved] at hholds
  have hnodup : ((t.outputs.map DeclaredOutput.toOutput).map Output.name).Nodup := by
    rw [List.map_map]
    exact hw.outputNames_nodup
  have hback : (t.outputs.map DeclaredOutput.toOutput).map Output.declared = t.outputs := by
    rw [List.map_map]
    exact List.map_id' t.outputs
  have hperm := (hholds.list_perm hnodup).map Output.declared
  rwa [hback] at hperm

/-- The log store is named as before. -/
theorem namesLogStore_declared (h : t.IsPlan plan) :
    plan.declared.NamesLogStore ↔ t.NamesLogStore := by
  have hplan := h.pipelines.any_mem_outputs defaultOutputName
  have hdeclared := h.pipelines.declared.any_mem_outputs defaultOutputName
  simpa [NamesLogStore, Plan.declared] using Bool.eq_iff_iff.1 (hdeclared.symm.trans hplan)

theorem allOutputs_declared_perm (hw : t.WellFormed) (h : t.IsPlan plan) :
    plan.declared.allOutputs.Perm t.allOutputs := by
  rw [allOutputs, allOutputs]
  simp only [namesLogStore_declared h]
  exact ((outputs_declared_perm hw h).map _).append_right _

/-! ### The whole plan -/

/-- What is written back from a plan fits together as the topology did that it is the plan of. -/
theorem WellFormed.declared (hw : t.WellFormed) (h : t.IsPlan plan) :
    plan.declared.WellFormed := by
  have hdeclared := outputs_declared_perm hw h
  have hall := allOutputs_declared_perm hw h
  have hnames : plan.declared.pipelineNames = t.pipelineNames := h.pipelines.effectiveNames_declared
  have hids : plan.declared.componentIds.Perm t.componentIds := by
    rw [componentIds, componentIds, ownIds, ownIds, hnames]
    exact ((hall.map _).append_left _).append_right _
  exact {
    outputNames_nodup := (hdeclared.map _).nodup_iff.2 hw.outputNames_nodup
    not_reserved := fun o ho => hw.not_reserved o (hdeclared.mem_iff.1 ho)
    targets := fun o ho => hw.targets o (hdeclared.mem_iff.1 ho)
    pipelineNames_nodup := hnames ▸ hw.pipelineNames_nodup
    references := by
      intro p' hp'
      obtain ⟨q, hq, rfl⟩ := List.mem_map.1 hp'
      obtain ⟨p, hp, _, hqp⟩ := h.pipelines.exists_declared hq
      exact (hw.references p hp).declared hqp (hdeclared.map _).symm.subset
    componentIds_nodup := hids.nodup_iff.2 hw.componentIds_nodup
    distinguished := by
      have hsecrets := (hall.filterMap Output.secret).subset
      exact fun a ha b hb => hw.distinguished a (hsecrets ha) b (hsecrets hb) }

/-- **Resolution is a normal form.** What is written back from the plan of a topology has this very
plan. -/
theorem resolve_declared (h : t.resolve = .ok plan) : plan.declared.resolve = .ok plan := by
  have hw := wellFormed_of_resolve h
  have hplan := isPlan_of_resolve h
  have hback : plan.declared.IsPlan plan :=
    ⟨hplan.pipelines.declared, hplan.outputs.of_perm (allOutputs_declared_perm hw hplan).symm⟩
  obtain ⟨plan', hplan'⟩ := (hw.declared hplan).exists_resolve
  rw [hplan', (isPlan_of_resolve hplan').eq hback]

end Topology

/-- A pipeline without a name that repeats its references, and outputs in no order. -/
def hasty : Topology where
  pipelines :=
    [{ inputs := ["audit", "application", "audit"], outputs := ["web", "default", "web"] },
      { name := "Apps", inputs := ["application"], outputs := ["logs"] }]
  outputs :=
    [{ name := "web", type := .http, url := some "http://web", secret := some "login" },
      { name := "logs", type := .googleCloudLogging, googleCloudLogging := some ⟨"p", "l"⟩ }]

/-- Its plan. -/
def hastyPlan : Plan where
  pipelines :=
    [⟨"pipeline_0", "pipeline_0", [.audit, .application], ["web", "default"]⟩,
      ⟨"Apps", "apps", [.application], ["logs"]⟩]
  outputs := (∅ : Outputs)
    |>.insert "web" ⟨"web", "web", .http, some "http://web", some "login", none⟩
    |>.insert "logs" ⟨"logs", "logs", .googleCloudLogging, none, none, some ⟨"p", "l"⟩⟩
    |>.insert "default" Output.logStore

/-- The topology that is written back says it with names, without repetitions and in order. -/
theorem resolve_declared_hasty :
    hasty.resolve = .ok hastyPlan ∧
      hastyPlan.declared =
        { pipelines :=
            [{ name := "pipeline_0", inputs := ["audit", "application"],
               outputs := ["web", "default"] },
              { name := "Apps", inputs := ["application"], outputs := ["logs"] }]
          outputs := hasty.outputs.reverse } ∧
      hastyPlan.declared.resolve = .ok hastyPlan := by
  have hplan : hasty.resolve = .ok hastyPlan := by decide +kernel
  exact ⟨hplan, by decide +kernel, Topology.resolve_declared hplan⟩

end LogForwarding
