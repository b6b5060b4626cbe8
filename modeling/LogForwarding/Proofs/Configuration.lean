/-
# When there is a configuration

Once a topology has a plan, only a secret can stand in the way of its
configuration. What pipelines and sinks contribute does not clash, so it can
be put in order and registered; and it is whole, so every element has a text.
The first output without a credential, in the order in which pipelines name
outputs, decides the fault.

Key theorems: `Plan.sinks_eq_error_iff`, `Plan.Sound.exists_document`,
`Topology.configuration_outcome`.
-/
import LogForwarding.Proofs.Arrangement
import LogForwarding.Proofs.Component.Coherent

namespace LogForwarding

namespace Plan

variable {plan : Plan} {secrets : Secrets} {settings : Settings}

/-- The fault of the sinks is that of the first output without a credential. -/
theorem sinks_eq_error_iff {fault : Fault} :
    plan.sinks secrets settings = .error fault ↔
      ∃ before o after, plan.referenced = before ++ o :: after ∧
        (∀ b ∈ before, ∃ credential, b.credential secrets = .ok credential) ∧
        o.credential secrets = .error fault := by
  rw [sinks, mapM_eq_error_iff]
  simp only [sink_eq_map, exists_map_eq_ok_iff, map_eq_error_iff]

/-- All outputs have their sinks if each has a credential. -/
theorem exists_sinks_iff :
    (∃ roots, plan.sinks secrets settings = .ok roots) ↔
      ∀ o ∈ plan.referenced, ∃ credential, o.credential secrets = .ok credential := by
  rw [sinks, exists_mapM_eq_ok_iff]
  simp only [sink_eq_map, exists_map_eq_ok_iff]

/-- Each sink is that of an output with a credential. -/
theorem mem_sinks {roots : List Element} {root : Element}
    (h : plan.sinks secrets settings = .ok roots) (hr : root ∈ roots) :
    ∃ o ∈ plan.referenced, ∃ credential, o.credential secrets = .ok credential ∧
      root = plan.sinkWith secrets settings o credential := by
  obtain ⟨o, ho, hsink⟩ := exists_mem_of_forall₂ (mapM_eq_ok_iff.1 h) hr
  rw [sink_eq_map, map_eq_ok_iff] at hsink
  obtain ⟨credential, hc, rfl⟩ := hsink
  exact ⟨o, ho, credential, hc, rfl⟩

/-- What the pipelines and sinks contribute. -/
def contributions (plan : Plan) (settings : Settings) (roots : List Element) :
    List (List Element) :=
  plan.pipelines.flatMap (fun p => [p.sources settings, p.transforms]) ++ [roots]

theorem mem_contributions {roots : List Element} {root : Element} :
    root ∈ (plan.contributions settings roots).flatten ↔
      (∃ p ∈ plan.pipelines, root ∈ p.sources settings ∨ root ∈ p.transforms) ∨ root ∈ roots := by
  rw [contributions, List.flatten_append, List.mem_append, List.flatten_singleton]
  simp only [List.mem_flatten, List.mem_flatMap, List.mem_cons, List.not_mem_nil, or_false]
  constructor
  · rintro (⟨l, ⟨p, hp, rfl | rfl⟩, hl⟩ | hr)
    · exact .inl ⟨p, hp, .inl hl⟩
    · exact .inl ⟨p, hp, .inr hl⟩
    · exact .inr hr
  · rintro (⟨p, hp, hl | hl⟩ | hr)
    · exact .inl ⟨_, ⟨p, hp, .inl rfl⟩, hl⟩
    · exact .inl ⟨_, ⟨p, hp, .inr rfl⟩, hl⟩
    · exact .inr hr

/-- All that is contributed is whole. -/
theorem whole_of_mem_contributions {roots : List Element} {root : Element}
    (h : plan.sinks secrets settings = .ok roots)
    (hr : root ∈ (plan.contributions settings roots).flatten) : root.Whole := by
  rcases mem_contributions.1 hr with ⟨p, _, hr | hr⟩ | hr
  · obtain ⟨log, _, rfl⟩ := List.mem_map.1 hr
    exact log.whole_source settings
  · rcases Pipeline.mem_transforms.1 hr with ⟨_, rfl⟩ | ⟨input, _, rfl⟩ | rfl
    · exact whole_route
    · exact input.whole_marking
    · exact p.whole_collector
  · obtain ⟨o, _, credential, _, rfl⟩ := mem_sinks h hr
    exact plan.whole_sinkWith secrets settings o credential

namespace Sound

/-- What is contributed does not clash, at any depth. -/
theorem coherent_contributions (h : plan.Sound) {roots : List Element}
    (hroots : plan.sinks secrets settings = .ok roots) :
    Coherent (Element.treeList (plan.contributions settings roots).flatten) := by
  have hstands : ∀ e ∈ Element.treeList (plan.contributions settings roots).flatten,
      ∃ place, plan.Stands secrets settings place e := by
    intro e he
    obtain ⟨root, hroot, he⟩ := Element.mem_treeList.1 he
    rcases mem_contributions.1 hroot with ⟨p, hp, hr | hr⟩ | hr
    · exact stands_of_mem_sources hr he
    · exact stands_of_mem_transforms hp hr he
    · obtain ⟨o, ho, credential, hc, rfl⟩ := mem_sinks hroots hr
      exact stands_of_mem_sinkWith (mem_list_of_mem_referenced ho) hc he
  exact h.coherent_of_stands hstands

/-- Where every sink has its credential, the elements can be put in order and have a document. -/
theorem exists_document (h : plan.Sound) {roots : List Element}
    (hroots : plan.sinks secrets settings = .ok roots) :
    ∃ elements text, plan.elements secrets settings = .ok elements ∧
      document elements = .ok text := by
  have hc := h.coherent_contributions hroots
  have hflat : (plan.contributions settings roots).flatten ⊆
      Element.treeList (plan.contributions settings roots).flatten :=
    fun e he => Element.mem_treeList.2 ⟨e, he, e.mem_tree_self⟩
  obtain ⟨elements, harrange, hsub⟩ := exists_arrange_of_coherent (hc.subset hflat)
  have htrees : Element.treeList elements ⊆
      Element.treeList (plan.contributions settings roots).flatten := by
    intro e he
    obtain ⟨root, hroot, he⟩ := Element.mem_treeList.1 he
    exact Element.mem_treeList.2 ⟨root, hsub hroot, he⟩
  obtain ⟨text, htext⟩ := exists_document_of_whole
    (fun root hroot => whole_of_mem_contributions hroots (hsub hroot)) (hc.subset htrees)
  exact ⟨elements, text, bind_eq_ok_iff.2 ⟨roots, hroots, harrange⟩, htext⟩

end Sound

end Plan

namespace Topology

variable {t : Topology} {plan : Plan} {secrets : Secrets} {settings : Settings}

/-- With its sinks a plan has a configuration. -/
theorem exists_configuration {roots : List Element} (h : t.resolve = .ok plan)
    (hroots : plan.sinks secrets settings = .ok roots) :
    ∃ text, t.configuration secrets settings = .ok text := by
  obtain ⟨elements, text, helements, htext⟩ := (Plan.sound_of_resolve h).exists_document hroots
  exact ⟨text, bind_eq_ok_iff.2 ⟨plan, h, bind_eq_ok_iff.2 ⟨elements, helements, htext⟩⟩⟩

theorem configuration_eq_error_of_sinks {fault : Fault} (h : t.resolve = .ok plan)
    (hroots : plan.sinks secrets settings = .error fault) :
    t.configuration secrets settings = .error fault := by
  have helements : plan.elements secrets settings = .error fault :=
    bind_eq_error_iff.2 (.inl hroots)
  exact bind_eq_error_iff.2 (.inr ⟨plan, h, bind_eq_error_iff.2 (.inl helements)⟩)

/-- The configuration fails as the sinks of the plan do, and not otherwise. -/
theorem configuration_eq_error_iff {fault : Fault} (h : t.resolve = .ok plan) :
    t.configuration secrets settings = .error fault ↔
      plan.sinks secrets settings = .error fault := by
  refine ⟨fun hfault => ?_, configuration_eq_error_of_sinks h⟩
  cases hroots : plan.sinks secrets settings with
  | error first =>
    rw [configuration_eq_error_of_sinks h hroots, Except.error.injEq] at hfault
    rw [hfault]
  | ok roots =>
    obtain ⟨text, htext⟩ := exists_configuration h hroots
    rw [htext] at hfault
    cases hfault

/-- **Only a secret can stand in the way.** A topology without a plan has the fault of its
resolution. With a plan, the first output that has no credential decides the fault; if every
output has one then there is a configuration, and no other fault is possible. -/
theorem configuration_outcome (t : Topology) (secrets : Secrets) (settings : Settings) :
    (∀ fault, t.resolve = .error fault → t.configuration secrets settings = .error fault) ∧
      ∀ plan, t.resolve = .ok plan →
        FirstSeen (plan.pipelines.flatMap Pipeline.outputs) (plan.referenced.map Output.name) ∧
        (∀ before o after fault, plan.referenced = before ++ o :: after →
          (∀ b ∈ before, ∃ credential, b.credential secrets = .ok credential) →
          o.credential secrets = .error fault →
          t.configuration secrets settings = .error fault) ∧
        ((∀ o ∈ plan.referenced, ∃ credential, o.credential secrets = .ok credential) →
          ∃ text, t.configuration secrets settings = .ok text) ∧
        ∀ fault, t.configuration secrets settings = .error fault → fault.kind = .credential := by
  refine ⟨fun fault h => bind_eq_error_iff.2 (.inl h), fun plan h => ⟨?_, ?_, ?_, ?_⟩⟩
  · exact (Plan.sound_of_resolve h).firstSeen_referenced
  · intro before o after fault hsplit hbefore ho
    rw [configuration_eq_error_iff h, Plan.sinks_eq_error_iff]
    exact ⟨before, o, after, hsplit, hbefore, ho⟩
  · intro hall
    obtain ⟨roots, hroots⟩ := Plan.exists_sinks_iff.2 hall
    exact exists_configuration h hroots
  · intro fault hfault
    rw [configuration_eq_error_iff h, Plan.sinks_eq_error_iff] at hfault
    obtain ⟨_, o, _, _, _, ho⟩ := hfault
    exact Output.kind_of_credential_error ho

/-- The log store has a secret of its own, and without secrets it has no credential. -/
example : Topology.configuration
    { pipelines := [{ name := "apps", inputs := ["application"], outputs := ["default"] }] } ∅ {} =
      .error (.missingSecret "default" "collector") := by
  decide +kernel

end Topology

end LogForwarding
