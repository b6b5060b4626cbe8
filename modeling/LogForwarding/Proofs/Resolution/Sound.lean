/-
# What can be relied on in a plan

A plan that was made by resolution has ids that differ, names only outputs
that it holds, and holds each output under its own name. The outputs that its
pipelines name are therefore found in the order in which they are first named.

Key definitions: `Plan.Sound`.
Key theorems: `Plan.sound_of_resolve`, `Plan.Sound.firstSeen_referenced`,
`Topology.mem_referenced_iff`.
-/
import LogForwarding.Proofs.Resolution.WellFormed

namespace LogForwarding

namespace Plan

/-- The names and ids of the plan fit together. -/
structure Sound (plan : Plan) : Prop where
  /-- A pipeline has the component id that is made from its name. -/
  pipeline_id : ∀ p ∈ plan.pipelines, p.id = componentId p.name
  /-- So has an output. -/
  output_id : ∀ o ∈ plan.outputs.list, o.id = componentId o.name
  /-- No two components have one id. -/
  ids_nodup :
    (plan.pipelines.map Pipeline.id ++ plan.outputs.list.map Output.id ++ builtinIds).Nodup
  /-- Each output stands under its own name. -/
  named : ∀ {name : String} {o : Output}, plan.outputs[name]? = some o → o.name = name
  /-- Pipelines name outputs that there are. -/
  known : ∀ p ∈ plan.pipelines, ∀ name ∈ p.outputs, name ∈ plan.outputs

theorem sound_of_resolve {t : Topology} {plan : Plan} (h : t.resolve = .ok plan) : plan.Sound := by
  have hw := Topology.wellFormed_of_resolve h
  have hp := Topology.isPlan_of_resolve h
  have hperm := hp.outputs.list_perm
    (Topology.allOutputs_names_nodup hw.outputNames_nodup hw.not_reserved)
  refine ⟨fun q hq => ?_, fun o ho => ?_, ?_, fun ho => ((hp.outputs _ _).1 ho).2,
    fun q hq name hname => ?_⟩
  · obtain ⟨p, _, name, hqp⟩ := hp.pipelines.exists_declared hq
    rw [hqp.id_eq, hqp.name_eq]
  · exact Topology.id_eq_of_mem_allOutputs (hperm.mem_iff.1 ho)
  · exact ((Topology.planIds_perm hperm hp.pipelines).append_right builtinIds).nodup_iff.2
      hw.componentIds_nodup
  · obtain ⟨p, hmem, _, hqp⟩ := hp.pipelines.exists_declared hq
    have hname' := (hqp.outputs.mem_iff name).1 hname
    rw [hp.outputs.mem_iff, List.mem_map]
    rcases (hw.references p hmem).outputs name hname' with rfl | hdeclared
    · exact ⟨Output.logStore, Topology.mem_allOutputs.2 (.inr ⟨⟨p, hmem, hname'⟩, rfl⟩), rfl⟩
    · obtain ⟨d, hd, rfl⟩ := List.mem_map.1 hdeclared
      exact ⟨d.toOutput, Topology.mem_allOutputs.2 (.inl ⟨d, hd, rfl⟩), rfl⟩

/-! ### The outputs that pipelines name -/

namespace Sound

variable {plan : Plan}

theorem addReferenced_eq_ok {found : List Output} {name : String} {o : Output}
    (h : plan.Sound) (ho : plan.outputs[name]? = some o) :
    (plan.addReferenced found name).map Output.name =
      if name ∈ found.map Output.name then found.map Output.name
      else found.map Output.name ++ [name] := by
  have hany : found.any (·.name == name) = true ↔ name ∈ found.map Output.name := by
    rw [List.any_eq_true, List.mem_map]
    simp
  unfold addReferenced
  simp only [hany, ho]
  split_ifs
  · rfl
  · rw [List.map_append, List.map_singleton, h.named ho]

/-- Outputs are found as they are first named. -/
theorem firstSeen_foldl_addReferenced (h : plan.Sound) {seen names : List String}
    {found : List Output} (hn : ∀ name ∈ names, name ∈ plan.outputs)
    (hf : FirstSeen seen (found.map Output.name)) :
    FirstSeen (seen ++ names) ((names.foldl plan.addReferenced found).map Output.name) := by
  induction names generalizing seen found with
  | nil => simpa using hf
  | cons name rest ih =>
    obtain ⟨hname, hrest⟩ := List.forall_mem_cons.1 hn
    obtain ⟨o, ho⟩ := Option.isSome_iff_exists.1 (Std.ExtTreeMap.mem_iff_isSome_getElem?.1 hname)
    have hstep : FirstSeen (seen ++ [name]) ((plan.addReferenced found name).map Output.name) := by
      rw [h.addReferenced_eq_ok ho]
      simp only [hf.mem_iff]
      exact hf.concat name
    simpa using ih hrest hstep

/-- The outputs that pipelines name are found in the order in which they are first named. -/
theorem firstSeen_referenced (h : plan.Sound) :
    FirstSeen (plan.pipelines.flatMap Pipeline.outputs) (plan.referenced.map Output.name) := by
  have hn : ∀ name ∈ plan.pipelines.flatMap Pipeline.outputs, name ∈ plan.outputs := by
    intro name hname
    obtain ⟨p, hp, hname⟩ := List.mem_flatMap.1 hname
    exact h.known p hp name hname
  have hnil : FirstSeen [] (([] : List Output).map Output.name) := firstSeen_eraseDups []
  exact h.firstSeen_foldl_addReferenced hn hnil

end Sound

/-- An output that pipelines name is one of the plan. -/
theorem mem_list_of_mem_referenced {plan : Plan} {o : Output} (h : o ∈ plan.referenced) :
    o ∈ plan.outputs.list := by
  have hfold : ∀ (names : List String) (found : List Output),
      (∀ o ∈ found, o ∈ plan.outputs.list) →
        ∀ o ∈ names.foldl plan.addReferenced found, o ∈ plan.outputs.list := by
    intro names
    induction names with
    | nil => exact fun _ hf => hf
    | cons name rest ih =>
      intro found hf
      refine ih _ fun o ho => ?_
      unfold addReferenced at ho
      split at ho
      · exact hf o ho
      · split at ho
        · rename_i output houtput
          rcases List.mem_append.1 ho with ho | ho
          · exact hf o ho
          · rw [List.mem_singleton.1 ho]
            exact Outputs.mem_list.2 ⟨name, houtput⟩
        · exact hf o ho
  exact hfold _ [] (by simp) o h

end Plan

/-- The names of the outputs that the pipelines of a plan name are those that are declared to be
named. -/
theorem Topology.mem_map_name_referenced_iff {t : Topology} {plan : Plan}
    (h : t.resolve = .ok plan) {name : String} :
    name ∈ plan.referenced.map Output.name ↔ ∃ p ∈ t.pipelines, name ∈ p.outputs := by
  have hany := (isPlan_of_resolve h).pipelines.any_mem_outputs name
  rw [(Plan.sound_of_resolve h).firstSeen_referenced.mem_iff, List.mem_flatMap]
  simpa using Bool.eq_iff_iff.1 hany

/-- The outputs that the pipelines of a plan name are those that declared pipelines name. -/
theorem Topology.mem_referenced_iff {t : Topology} {plan : Plan} (h : t.resolve = .ok plan)
    {o : Output} :
    o ∈ plan.referenced ↔ o ∈ t.allOutputs ∧ ∃ p ∈ t.pipelines, o.name ∈ p.outputs := by
  have hp := isPlan_of_resolve h
  have hlist : ∀ {o : Output}, o ∈ plan.outputs.list → o ∈ t.allOutputs := fun ho => by
    obtain ⟨key, hkey⟩ := Outputs.mem_list.1 ho
    exact ((hp.outputs key _).1 hkey).1
  rw [← mem_map_name_referenced_iff h]
  constructor
  · intro ho
    exact ⟨hlist (Plan.mem_list_of_mem_referenced ho), List.mem_map_of_mem ho⟩
  · rintro ⟨ho, hnamed⟩
    obtain ⟨o', ho', hname⟩ := List.mem_map.1 hnamed
    have hfound' := (hp.outputs o.name o').2 ⟨hlist (Plan.mem_list_of_mem_referenced ho'), hname⟩
    have hfound := (hp.outputs o.name o).2 ⟨ho, rfl⟩
    rw [hfound, Option.some.injEq] at hfound'
    rwa [hfound']

end LogForwarding
