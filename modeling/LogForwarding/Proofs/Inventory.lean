/-
# The components of a configuration, by name

Which components a configuration has can be read off what is declared, and the
order in which they stand too: the sources in the order of the logs on the
node, the transforms that inputs need, a transform for each pipeline, and a
sink for each output where a pipeline first names it. Secrets and settings
change what is in the components, but not which there are.

Key definitions: `Topology.refersTo`, `Topology.componentNames`,
`Plan.componentPlaces`.
Key theorems: `Plan.map_name_sequence`, `Plan.map_name_componentPlaces`,
`Topology.map_name_elements`.
-/
import LogForwarding.Proofs.Document.Names

namespace LogForwarding

namespace Topology

/-- Some pipeline is declared to take the input. -/
def refersTo (t : Topology) (input : Input) : Bool :=
  t.pipelines.any (input.name ∈ ·.inputs)

/-- The ids of the sources: one for each log that belongs to an input that is referred to. -/
def sourceIds (t : Topology) : List String :=
  (NodeLog.all.filter fun log => Input.all.any fun input =>
    log ∈ input.logs && t.refersTo input).map NodeLog.id

/-- The ids of the transforms: the split of the container logs, where an input uses them, one for
each input that is referred to, and one for each pipeline. -/
def transformIds (t : Topology) : List String :=
  (if t.refersTo .application || t.refersTo .infrastructure then [routeId] else []) ++
    (Input.all.filter t.refersTo).map Input.name ++ t.pipelineNames.map componentId

/-- The ids of the sinks: one for each output that a pipeline names, where it is first named. -/
def sinkIds (t : Topology) : List String :=
  (t.pipelines.flatMap DeclaredPipeline.outputs).eraseDups.map componentId

/-- The names of the components, in the order of the document. -/
def componentNames (t : Topology) : List String :=
  t.sourceIds.map ("sources." ++ ·) ++ t.transformIds.map ("transforms." ++ ·) ++
    t.sinkIds.map ("sinks." ++ ·)

end Topology

namespace Plan

variable {plan : Plan} {secrets : Secrets} {settings : Settings} {t : Topology}
  {served : List (Output × Credential)}

/-! ### The components of a plan -/

/-- The places of the components. -/
def componentPlaces (plan : Plan) : List Place :=
  plan.usedLogs.map (.source ·.id) ++
    (plan.transformIds.map .transform ++ plan.referenced.map (.sink ·.id))

/-- Components are named by their places. -/
theorem map_name_sequence (hs : plan.served secrets = .ok served) :
    (plan.sequence secrets settings served).map Element.name =
      plan.componentPlaces.map Place.name := by
  have hsources : (plan.usedLogs.map (NodeLog.source settings)).map Element.name =
      (plan.usedLogs.map fun log => Place.source log.id).map Place.name := by
    rw [List.map_map, List.map_map]
    exact List.map_congr_left fun log _ => by cases log <;> rfl
  have htransforms : (plan.sharedTransforms ++
        plan.pipelines.map Pipeline.collector).map Element.name =
      (plan.transformIds.map Place.transform).map Place.name := by
    have hroute : (if plan.usesContainers then [route] else []).map Element.name =
        (if plan.usesContainers then [routeId] else []).map fun id => "transforms." ++ id := by
      split_ifs <;> rfl
    simp only [sharedTransforms, transformIds, List.map_append, hroute, List.map_map]
    rfl
  have hsinks : (plan.sinksOf secrets settings served).map Element.name =
      (plan.referenced.map fun o => Place.sink o.id).map Place.name := by
    rw [← (served_eq_ok_iff.1 hs).1, sinksOf, List.map_map, List.map_map, List.map_map]
    exact List.map_congr_left fun s _ => name_sinkWith ..
  rw [componentPlaces, List.map_append, List.map_append, ← hsources, ← htransforms, ← hsinks,
    ← List.map_append, ← List.map_append, List.append_assoc]
  rfl

/-- The components are among the places of tables, in the same order. -/
theorem componentPlaces_sublist (plan : Plan) (secrets : Secrets) :
    plan.componentPlaces.Sublist (plan.places secrets) := by
  have hsinks : (plan.referenced.map fun o => Place.sink o.id).Sublist
      (plan.referenced.flatMap (sinkPlaces secrets)) := by
    induction plan.referenced with
    | nil => exact .slnil
    | cons o rest ih =>
      rw [List.map_cons, List.flatMap_cons, sinkPlaces, List.cons_append]
      exact (ih.trans (List.sublist_append_right _ _)).cons_cons _
  unfold componentPlaces places
  apply List.Sublist.append (.refl _)
  exact List.Sublist.append (.refl _) hsinks

/-- No two components have one name. -/
theorem Sound.map_name_componentPlaces_nodup (h : plan.Sound) :
    (plan.componentPlaces.map Place.name).Nodup :=
  (h.map_name_places_nodup ∅).sublist ((plan.componentPlaces_sublist ∅).map Place.name)

/-! ### What the plan says and what is declared -/

theorem mem_usedInputs_iff_refersTo (h : t.IsPlan plan) {input : Input} :
    input ∈ plan.usedInputs ↔ t.refersTo input := by
  unfold Topology.refersTo
  rw [← h.pipelines.any_mem_inputs, mem_usedInputs, List.any_eq_true]
  simp only [decide_eq_true_eq]

theorem usedInputs_eq (h : t.IsPlan plan) : plan.usedInputs = Input.all.filter t.refersTo :=
  List.filter_congr fun input _ => h.pipelines.any_mem_inputs input

theorem map_id_usedLogs (h : t.IsPlan plan) : plan.usedLogs.map NodeLog.id = t.sourceIds := by
  unfold usedLogs Topology.sourceIds
  congr 1
  refine List.filter_congr fun log _ => ?_
  have hused : log ∈ plan.usedLogs ↔ ∃ input ∈ plan.usedInputs, log ∈ input.logs := by
    simp only [mem_usedLogs, mem_usedInputs]
    tauto
  rw [Bool.eq_iff_iff, List.any_eq_true, List.any_eq_true]
  simpa [mem_usedLogs, mem_usedInputs_iff_refersTo h, Pipeline.logs, log.mem_all, Input.mem_all,
    and_comm] using hused

theorem usesContainers_eq (h : t.IsPlan plan) :
    plan.usesContainers = (t.refersTo .application || t.refersTo .infrastructure) := by
  rw [Bool.eq_iff_iff, usesContainers_iff, Bool.or_eq_true, ← mem_usedInputs_iff_refersTo h,
    ← mem_usedInputs_iff_refersTo h, mem_usedInputs, mem_usedInputs, ← exists_or]
  refine exists_congr fun p => ?_
  rw [← and_or_left, List.any_eq_true]
  refine and_congr_right fun _ => ?_
  constructor
  · rintro ⟨input, hinput, hcontainers⟩
    cases input with
    | application => exact .inl hinput
    | infrastructure => exact .inr hinput
    | audit => exact absurd hcontainers (by decide)
  · rintro (hinput | hinput)
    · exact ⟨_, hinput, by decide⟩
    · exact ⟨_, hinput, by decide⟩

theorem transformIds_eq (h : t.IsPlan plan) : plan.transformIds = t.transformIds := by
  unfold transformIds Topology.transformIds
  rw [usesContainers_eq h, usedInputs_eq h, h.pipelines.map_id]
  rfl

theorem map_id_referenced (h : t.resolve = .ok plan) :
    plan.referenced.map Output.id = t.sinkIds := by
  have hsound := sound_of_resolve h
  calc plan.referenced.map Output.id
    _ = (plan.referenced.map Output.name).map componentId := by
      rw [List.map_map]
      exact List.map_congr_left fun o ho => hsound.output_id o (mem_list_of_mem_referenced ho)
    _ = (plan.pipelines.flatMap Pipeline.outputs).eraseDups.map componentId := by
      rw [hsound.firstSeen_referenced.eq_eraseDups]
    _ = t.sinkIds := by
      rw [(Topology.isPlan_of_resolve h).pipelines.eraseDups_outputs, Topology.sinkIds]

theorem map_name_componentPlaces (h : t.resolve = .ok plan) :
    plan.componentPlaces.map Place.name = t.componentNames := by
  have hplan := Topology.isPlan_of_resolve h
  unfold componentPlaces Topology.componentNames
  rw [← map_id_usedLogs hplan, ← transformIds_eq hplan, ← map_id_referenced h,
    List.append_assoc]
  simp only [List.map_append, List.map_map]
  rfl

end Plan

/-- **Which components there are, and in which order, is told by what is declared.** -/
theorem Topology.map_name_elements {t : Topology} {plan : Plan} {secrets : Secrets}
    {settings : Settings} {elements : List Element} (h : t.resolve = .ok plan)
    (he : plan.elements secrets settings = .ok elements) :
    elements.map Element.name = t.componentNames ∧ t.componentNames.Nodup := by
  have hsound := Plan.sound_of_resolve h
  obtain ⟨served, hs, rfl⟩ := hsound.elements_eq_ok_iff.1 he
  rw [Plan.map_name_sequence hs, ← Plan.map_name_componentPlaces h]
  exact ⟨rfl, hsound.map_name_componentPlaces_nodup⟩

/-- Pipelines that repeat what they and others refer to. -/
def relays : Topology where
  pipelines :=
    [{ inputs := ["audit", "audit"], outputs := ["Cold/1", "default"] },
      { name := "Second One", inputs := ["infrastructure"], outputs := ["hot", "Cold/1", "hot"] },
      { inputs := ["audit"], outputs := ["default", "hot"] }]
  outputs :=
    [{ name := "hot", type := .http, url := some "http://hot" },
      { name := "spare", type := .http, url := some "http://spare" },
      { name := "Cold/1", type := .loki, url := some "http://loki" }]

/-- The plan of the relays. -/
def relaysPlan : Plan where
  pipelines :=
    [⟨"pipeline_0", "pipeline_0", [.audit], ["Cold/1", "default"]⟩,
      ⟨"Second One", "second_one", [.infrastructure], ["hot", "Cold/1"]⟩,
      ⟨"pipeline_2", "pipeline_2", [.audit], ["default", "hot"]⟩]
  outputs := (∅ : Outputs)
    |>.insert "hot" ⟨"hot", "hot", .http, some "http://hot", none, none⟩
    |>.insert "spare" ⟨"spare", "spare", .http, some "http://spare", none, none⟩
    |>.insert "Cold/1" ⟨"Cold/1", "cold_1", .loki, some "http://loki", none, none⟩
    |>.insert "default" Output.logStore

/-- The components of the relays: no application logs, and nothing for the spare output. -/
theorem map_name_elements_relays :
    ∃ secrets : Secrets, ∃ elements, relays.resolve = .ok relaysPlan ∧
      relaysPlan.elements secrets {} = .ok elements ∧
      elements.map Element.name =
        ["sources.container_logs", "sources.journal_logs", "sources.host_audit_logs",
          "sources.k8s_audit_logs", "sources.openshift_audit_logs", "sources.ovn_audit_logs",
          "transforms.route_container_logs", "transforms.infrastructure", "transforms.audit",
          "transforms.pipeline_0", "transforms.second_one", "transforms.pipeline_2",
          "sinks.cold_1", "sinks.default", "sinks.hot"] := by
  have hplan : relays.resolve = .ok relaysPlan := by decide +kernel
  have hserved : relaysPlan.served ((∅ : Secrets).insert "collector" ∅) =
      .ok (relaysPlan.referenced.map (·, .anonymous)) := by
    decide +kernel
  have helements : relaysPlan.elements _ {} = .ok (relaysPlan.sequence _ {} _) :=
    (Plan.sound_of_resolve hplan).elements_eq_ok hserved
  refine ⟨_, _, hplan, helements, (Topology.map_name_elements hplan helements).1.trans ?_⟩
  decide +kernel

end LogForwarding
