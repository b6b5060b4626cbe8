/-
# The sources by themselves

The sources of a plan can be asked for without its transforms and sinks. No
secret is needed for them and no source clashes with another, so they are
always there, whatever pipelines and outputs the plan is made of. Where the
plan has all its elements, these are the elements of the first section: it
makes no difference whether sources are picked out before elements are merged
and ordered, or after it.

Key theorems: `Plan.sources_eq_ok`, `Plan.filter_contributions`,
`Plan.sources_section`.
-/
import LogForwarding.Proofs.Component.Sequence
import LogForwarding.Proofs.SectionOrder

namespace LogForwarding

theorem NodeLog.name_source (settings : Settings) (log : NodeLog) :
    (log.source settings).name = "sources." ++ log.id := by
  cases log <;> rfl

/-- All elements of the list are sources, so those of one name are equal. -/
theorem coherent_of_sources {es : List Element} (settings : Settings)
    (h : ∀ e ∈ es, ∃ log : NodeLog, log.source settings = e) : Coherent es := by
  intro a ha b hb hab
  obtain ⟨log, rfl⟩ := h a ha
  obtain ⟨log', rfl⟩ := h b hb
  have hid : log.id = log'.id := by
    rw [NodeLog.name_source, NodeLog.name_source] at hab
    simpa using hab
  rw [NodeLog.id_injective hid]

/-- Of what a pipeline contributes, its sources are picked. -/
theorem Pipeline.filter_sources_append (settings : Settings) (p : Pipeline) :
    (p.sources settings ++ p.transforms).filter (·.part = .sources) = p.sources settings := by
  have hsources : (p.sources settings).filter (·.part = .sources) = p.sources settings := by
    refine List.filter_eq_self.2 fun e he => ?_
    obtain ⟨log, _, rfl⟩ := List.mem_map.1 he
    exact decide_eq_true (log.part_source settings)
  have htransforms : p.transforms.filter (·.part = .sources) = [] := by
    refine List.filter_eq_nil_iff.2 fun e he => ?_
    rcases mem_transforms.1 he with ⟨_, rfl⟩ | ⟨input, _, rfl⟩ | rfl <;> simp
  rw [List.filter_append, hsources, htransforms, List.append_nil]

namespace Plan

variable {plan : Plan} {secrets : Secrets} {settings : Settings}

/-- The sources are those of the logs that some pipeline needs. -/
theorem sources_eq_ok (plan : Plan) (settings : Settings) :
    plan.sources settings = .ok (plan.usedLogs.map (NodeLog.source settings)) := by
  have hmem : ∀ e, e ∈ plan.usedLogs.map (NodeLog.source settings) ↔
      e ∈ (plan.pipelines.map (Pipeline.sources settings)).flatten := by
    intro e
    rw [mem_map_source_usedLogs, ← List.flatMap_def, List.mem_flatMap]
  refine arrange_eq_ok_of_pairwise (coherent_of_sources settings fun e he => ?_) hmem ?_
  · obtain ⟨log, _, heq⟩ := List.mem_map.1 ((hmem e).2 he)
    exact ⟨log, heq⟩
  · exact pairwise_sources.imp fun hab => hab.ordered

/-- Of all contributions, the sources of the pipelines are picked. -/
theorem filter_contributions {roots : List Element} (h : plan.sinks secrets settings = .ok roots) :
    (plan.contributions settings roots).flatten.filter (·.part = .sources) =
      (plan.pipelines.map (Pipeline.sources settings)).flatten := by
  have hroots : roots.filter (·.part = .sources) = [] := by
    refine List.filter_eq_nil_iff.2 fun root hroot => ?_
    obtain ⟨o, _, credential, _, rfl⟩ := mem_sinks h hroot
    simp
  have hparts : (plan.pipelineParts settings).filter (·.part = .sources) =
      plan.pipelines.flatMap (Pipeline.sources settings) := by
    rw [pipelineParts, List.filter_flatMap]
    exact List.flatMap_congr fun p _ => p.filter_sources_append settings
  rw [flatten_contributions, List.filter_append, hroots, List.append_nil, hparts, List.flatMap_def]

/-- **The sources of a plan are its first section.** Every plan has its sources, one for each log
that some pipeline needs, in order of rank. Where the plan has its elements, those of the section
of sources are the same, one by one. -/
theorem sources_section (plan : Plan) (settings : Settings) :
    plan.sources settings = .ok (plan.usedLogs.map (NodeLog.source settings)) ∧
      ∀ secrets elements, plan.elements secrets settings = .ok elements →
        plan.sources settings = .ok (elements.filter (·.part = .sources)) := by
  refine ⟨plan.sources_eq_ok settings, fun secrets elements h => ?_⟩
  obtain ⟨roots, hroots, harrange⟩ := bind_eq_ok_iff.1 h
  exact arrange_filter (filter_contributions hroots).symm harrange

end Plan

end LogForwarding
