/-
# How components are wired

A transform or a sink names the components that it reads from. In every
configuration these names can be followed: each is the id of a source or
transform that stands earlier, or one of the two outputs of the split of the
container logs, which then stands earlier itself. Nothing is wired to itself
or in a circle, no name is dangling, and no source or transform is left
without a reader. Sources, markings and collectors come from one pipeline or
another; what holds them together is that an input is marked where a pipeline
names it, and that each log it is fed from is read.

Key definitions: `Element.Provides`, `Plan.Wired`.
Key theorems: `Plan.exists_provider`, `Plan.exists_reader`, `Topology.wired`.
-/
import LogForwarding.Proofs.Component.Sequence
import LogForwarding.Proofs.Toml.Quoting

namespace LogForwarding

/-! ### Ids and inputs of components -/

namespace Element

/-- The component id of an element. -/
def id? (e : Element) : Option String := e.get? "id"

/-- The ids that an element reads from. -/
def inputs? (e : Element) : Option (List String) := (e.get? "inputs").bind Toml.array?

end Element

/-- The outputs of the split of the container logs. -/
def routeOutputs : List String := [routeId ++ ".app", routeId ++ ".infra"]

/-- Logs can be read from the element under the name `id`: it is a source or a transform with this
id, or the split of the container logs and has an output of this name. -/
def Element.Provides (e : Element) (id : String) : Prop :=
  (e.part = .sources ∨ e.part = .transforms) ∧ e.id? = some id ∨
    e.part = .transforms ∧ e.id? = some routeId ∧ id ∈ routeOutputs

@[simp] theorem NodeLog.id?_source (settings : Settings) (log : NodeLog) :
    (log.source settings).id? = some log.id := by
  simp [source, Element.id?, Element.get?_set]

@[simp] theorem id?_route : route.id? = some routeId := by
  simp [route, Element.id?, Element.get?_set]

@[simp] theorem inputs?_route : route.inputs? = some [NodeLog.container.id] := by
  simp [route, Element.inputs?, Element.get?_set, Toml.array?_array]

@[simp] theorem Input.id?_marking (input : Input) : input.marking.id? = some input.name := by
  simp [marking, Element.id?, Element.get?_set]

@[simp] theorem Input.inputs?_marking (input : Input) :
    input.marking.inputs? = some input.feeds := by
  simp [marking, Element.inputs?, Element.get?_set, Toml.array?_array]

@[simp] theorem Pipeline.id?_collector (p : Pipeline) : p.collector.id? = some p.id := by
  simp [collector, Element.id?, Element.get?_set]

@[simp] theorem Pipeline.inputs?_collector (p : Pipeline) :
    p.collector.inputs? = some (p.inputs.map Input.name) := by
  simp [collector, Element.inputs?, Element.get?_set, Toml.array?_array]

@[simp] theorem Plan.id?_sinkWith (plan : Plan) (secrets : Secrets) (settings : Settings)
    (o : Output) (credential : Credential) :
    (plan.sinkWith secrets settings o credential).id? = some o.id := by
  simp [sinkWith, Element.id?, Element.get?_set, Element.get?_embed]

@[simp] theorem Plan.inputs?_sinkWith (plan : Plan) (secrets : Secrets) (settings : Settings)
    (o : Output) (credential : Credential) :
    (plan.sinkWith secrets settings o credential).inputs? = some (plan.readers o) := by
  simp [sinkWith, Element.inputs?, Element.get?_set, Element.get?_embed, Toml.array?_array]

/-! ### Which transforms stand before which -/

theorem route_standsBefore_marking (input : Input) : route.StandsBefore input.marking :=
  .inr ⟨rfl, Nat.lt_add_right input.rank Nat.one_pos⟩

theorem marking_standsBefore_collector (input : Input) (p : Pipeline) :
    input.marking.StandsBefore p.collector := by
  have hrank := input.rank_lt
  refine .inr ⟨rfl, ?_⟩
  rw [Input.rank_marking, Pipeline.rank_collector]
  omega

/-! ### What an input is fed from -/

namespace Input

/-- An input is fed from the logs that it stands for, of which the container logs come from an
output of their split. -/
theorem mem_feeds {input : Input} {id : String} (h : id ∈ input.feeds) :
    input.usesContainers ∧ id ∈ routeOutputs ∨ ∃ log ∈ input.logs, log.id = id := by
  cases input <;> simp [feeds, logs, usesContainers, routeOutputs] at h ⊢ <;> tauto

/-- Every other log that the input stands for feeds it. -/
theorem id_mem_feeds {input : Input} {log : NodeLog} (h : log ∈ input.logs)
    (hc : log ≠ .container) : log.id ∈ input.feeds := by
  cases input <;> simp [logs] at h <;> grind [feeds, logs]

/-- So does an output of the split, where the input takes a part of the container logs. -/
theorem exists_routeOutput {input : Input} (h : input.usesContainers) :
    ∃ id ∈ input.feeds, id ∈ routeOutputs := by
  revert h
  cases input <;> decide

theorem feeds_ne_nil (input : Input) : input.feeds ≠ [] := by
  cases input <;> decide

theorem feeds_nodup (input : Input) : input.feeds.Nodup := by
  cases input <;> decide

end Input

/-! ### Pipelines forward something somewhere -/

/-- The pipeline has inputs, none of them twice, and outputs. -/
structure Pipeline.Forwards (p : Pipeline) : Prop where
  /-- It has an input. -/
  inputs_ne_nil : p.inputs ≠ []
  /-- No input is repeated. -/
  inputs_nodup : p.inputs.Nodup
  /-- It has an output. -/
  outputs_ne_nil : p.outputs ≠ []

theorem Plan.forwards_of_resolve {t : Topology} {plan : Plan} (h : t.resolve = .ok plan)
    {p : Pipeline} (hp : p ∈ plan.pipelines) : p.Forwards := by
  obtain ⟨d, hd, _, hr⟩ := (Topology.isPlan_of_resolve h).pipelines.exists_declared hp
  have hrefs := (Topology.wellFormed_of_resolve h).references d hd
  exact {
    inputs_ne_nil := fun hnil => hr.inputs.ne_nil hrefs.inputs_ne_nil (by rw [hnil]; rfl)
    inputs_nodup := .of_map Input.name hr.inputs.nodup
    outputs_ne_nil := hr.outputs.ne_nil hrefs.outputs_ne_nil }

namespace Plan

variable {plan : Plan} {secrets : Secrets} {settings : Settings}
  {served : List (Output × Credential)}

/-! ### Who reads from whom -/

/-- Pipelines name the output if and only if some pipeline has it. -/
theorem Sound.exists_pipeline_iff (h : plan.Sound) {name : String} :
    (∃ o ∈ plan.referenced, o.name = name) ↔ ∃ p ∈ plan.pipelines, name ∈ p.outputs := by
  rw [← List.mem_map, h.firstSeen_referenced.mem_iff, List.mem_flatMap]

/-- The readers of an output, in the order of their declaration, are different pipelines. -/
theorem Sound.readers_nodup (h : plan.Sound) (o : Output) : (plan.readers o).Nodup := by
  have hids := (List.nodup_append'.1 (List.nodup_append'.1 h.ids_nodup).1).1
  exact hids.sublist (List.filter_sublist.map Pipeline.id)

theorem Sound.readers_ne_nil (h : plan.Sound) {o : Output} (ho : o ∈ plan.referenced) :
    plan.readers o ≠ [] := by
  obtain ⟨p, hp, hname⟩ := h.exists_pipeline_iff.1 ⟨o, ho, rfl⟩
  exact List.ne_nil_of_mem (List.mem_map.2 ⟨p, List.mem_filter.2 ⟨hp, by simpa using hname⟩, rfl⟩)

theorem marking_provides (input : Input) : input.marking.Provides input.name :=
  .inl ⟨.inr rfl, input.id?_marking⟩

theorem collector_provides (p : Pipeline) : p.collector.Provides p.id :=
  .inl ⟨.inr rfl, p.id?_collector⟩

theorem source_provides (settings : Settings) (log : NodeLog) :
    (log.source settings).Provides log.id :=
  .inl ⟨.inl (log.part_source settings), log.id?_source settings⟩

theorem route_provides {id : String} (h : id ∈ routeOutputs) : route.Provides id :=
  .inr ⟨rfl, id?_route, h⟩

/-- **Names can be followed.** A transform or a sink names at least one component, none of them
twice, and each is provided by a component that stands before it. -/
theorem Sound.exists_provider (h : plan.Sound) (hf : ∀ p ∈ plan.pipelines, p.Forwards)
    (hs : plan.served secrets = .ok served) {e : Element}
    (he : e ∈ plan.sequence secrets settings served) (hpart : e.part ≠ .sources) :
    ∃ ids, e.inputs? = some ids ∧ ids ≠ [] ∧ ids.Nodup ∧
      ∀ id ∈ ids, ∃ c ∈ plan.sequence secrets settings served,
        c.StandsBefore e ∧ c.Provides id := by
  have hcontainers : plan.usesContainers → NodeLog.container ∈ plan.usedLogs := by
    rw [usesContainers_iff, mem_usedLogs]
    rintro ⟨p, hp, huse⟩
    obtain ⟨input, hi, hc⟩ := List.any_eq_true.1 huse
    exact ⟨p, hp, input, hi, of_decide_eq_true hc⟩
  rcases mem_sequence_iff.1 he with
    ⟨log, _, rfl⟩ | ⟨huse, rfl⟩ | ⟨input, hi, rfl⟩ | ⟨p, hp, rfl⟩ | ⟨⟨o, credential⟩, ho, rfl⟩
  · exact absurd (log.part_source settings) hpart
  · -- The split reads the container logs.
    refine ⟨_, inputs?_route, by simp, by simp, fun id hid => ?_⟩
    obtain rfl := List.mem_singleton.1 hid
    exact ⟨_, mem_sequence_iff.2 (.inl ⟨_, hcontainers huse, rfl⟩),
      .inl (by simp [Section.position_lt_iff]), source_provides settings .container⟩
  · -- A marking reads the logs of its input, or an output of the split.
    refine ⟨_, input.inputs?_marking, input.feeds_ne_nil, input.feeds_nodup, fun id hid => ?_⟩
    obtain ⟨p, hp, hpi⟩ := mem_usedInputs.1 hi
    rcases Input.mem_feeds hid with ⟨huse, hid⟩ | ⟨log, hlog, rfl⟩
    · have hroute : plan.usesContainers :=
        usesContainers_iff.2 ⟨p, hp, List.any_eq_true.2 ⟨input, hpi, huse⟩⟩
      exact ⟨route, mem_sequence_iff.2 (.inr (.inl ⟨hroute, rfl⟩)),
        route_standsBefore_marking input, route_provides hid⟩
    · exact ⟨_, mem_sequence_iff.2 (.inl ⟨log, mem_usedLogs.2 ⟨p, hp, input, hpi, hlog⟩, rfl⟩),
        .inl (by simp [Section.position_lt_iff]), source_provides settings log⟩
  · -- A collector reads the markings of the inputs of its pipeline.
    refine ⟨_, p.inputs?_collector, by simpa using (hf p hp).inputs_ne_nil,
      (hf p hp).inputs_nodup.map Input.name_injective, fun id hid => ?_⟩
    obtain ⟨input, hi, rfl⟩ := List.mem_map.1 hid
    exact ⟨_, mem_sequence_iff.2 (.inr (.inr (.inl ⟨input, mem_usedInputs.2 ⟨p, hp, hi⟩, rfl⟩))),
      marking_standsBefore_collector input p, marking_provides input⟩
  · -- A sink reads the collectors of the pipelines that name its output.
    have hreferenced : o ∈ plan.referenced := by
      rw [← (served_eq_ok_iff.1 hs).1]
      exact List.mem_map.2 ⟨_, ho, rfl⟩
    refine ⟨_, inputs?_sinkWith .., h.readers_ne_nil hreferenced, h.readers_nodup o,
      fun id hid => ?_⟩
    obtain ⟨p, hp, rfl⟩ := List.mem_map.1 hid
    exact ⟨_, mem_sequence_iff.2 (.inr (.inr (.inr (.inl ⟨p, (List.mem_filter.1 hp).1, rfl⟩)))),
      .inl (by simp [Section.position_lt_iff]), collector_provides p⟩

/-- **Nothing is left without a reader.** What a source or a transform provides is read by a
component that stands after it. -/
theorem Sound.exists_reader (h : plan.Sound) (hf : ∀ p ∈ plan.pipelines, p.Forwards)
    (hs : plan.served secrets = .ok served) {c : Element}
    (hc : c ∈ plan.sequence secrets settings served) (hpart : c.part ≠ .sinks) :
    ∃ e ∈ plan.sequence secrets settings served, c.StandsBefore e ∧
      ∃ ids, e.inputs? = some ids ∧ ∃ id ∈ ids, c.Provides id := by
  have hmarking : ∀ p ∈ plan.pipelines, ∀ input ∈ p.inputs,
      input.marking ∈ plan.sequence secrets settings served := fun p hp input hi =>
    mem_sequence_iff.2 (.inr (.inr (.inl ⟨input, mem_usedInputs.2 ⟨p, hp, hi⟩, rfl⟩)))
  rcases mem_sequence_iff.1 hc with
    ⟨log, hlog, rfl⟩ | ⟨huse, rfl⟩ | ⟨input, hi, rfl⟩ | ⟨p, hp, rfl⟩ | ⟨s, _, rfl⟩
  · -- The container logs are read by the split, and every other log by a marking.
    obtain ⟨p, hp, input, hi, hlog⟩ := mem_usedLogs.1 hlog
    by_cases hcontainer : log = .container
    · subst hcontainer
      have hroute : plan.usesContainers :=
        usesContainers_iff.2 ⟨p, hp, List.any_eq_true.2 ⟨input, hi, decide_eq_true hlog⟩⟩
      exact ⟨route, mem_sequence_iff.2 (.inr (.inl ⟨hroute, rfl⟩)),
        .inl (by simp [Section.position_lt_iff]), _, inputs?_route, _, by simp,
        source_provides settings .container⟩
    · exact ⟨input.marking, hmarking p hp input hi, .inl (by simp [Section.position_lt_iff]), _,
        input.inputs?_marking, _, Input.id_mem_feeds hlog hcontainer, source_provides settings log⟩
  · -- An output of the split is read by a marking.
    obtain ⟨p, hp, huse⟩ := usesContainers_iff.1 huse
    obtain ⟨input, hi, huse⟩ := List.any_eq_true.1 huse
    obtain ⟨id, hid, houtput⟩ := Input.exists_routeOutput huse
    exact ⟨input.marking, hmarking p hp input hi, route_standsBefore_marking input, _,
      input.inputs?_marking, id, hid, route_provides houtput⟩
  · -- A marking is read by the collector of a pipeline that names the input.
    obtain ⟨p, hp, hi⟩ := mem_usedInputs.1 hi
    exact ⟨p.collector, mem_sequence_iff.2 (.inr (.inr (.inr (.inl ⟨p, hp, rfl⟩)))),
      marking_standsBefore_collector input p, _, p.inputs?_collector, _, List.mem_map_of_mem hi,
      marking_provides input⟩
  · -- A collector is read by the sink of an output of its pipeline.
    obtain ⟨name, hname⟩ := List.exists_mem_of_ne_nil _ (hf p hp).outputs_ne_nil
    obtain ⟨o, ho, rfl⟩ := h.exists_pipeline_iff.2 ⟨p, hp, hname⟩
    obtain ⟨credential, _, hserved⟩ := exists_mem_served hs ho
    have hreads : p.id ∈ plan.readers o :=
      List.mem_map.2 ⟨p, List.mem_filter.2 ⟨hp, by simpa using hname⟩, rfl⟩
    exact ⟨_, mem_sequence_iff.2 (.inr (.inr (.inr (.inr ⟨_, hserved, rfl⟩)))),
      .inl (by simp [Section.position_lt_iff]), _, inputs?_sinkWith .., _, hreads,
      collector_provides p⟩
  · exact absurd (part_sinkWith ..) hpart

/-! ### The wiring of a configuration -/

/-- The elements of a configuration are wired to each other, and to nothing else. -/
structure Wired (plan : Plan) (elements : List Element) : Prop where
  /-- A transform or a sink reads from some components, each named once and each of them provided
  by an element that stands before it. -/
  provided : ∀ before e after, elements = before ++ e :: after →
    e.part = .transforms ∨ e.part = .sinks →
      ∃ ids, e.inputs? = some ids ∧ ids ≠ [] ∧ ids.Nodup ∧
        ∀ id ∈ ids, ∃ c ∈ before, c.Provides id
  /-- The sinks are those of the outputs that pipelines name, and each reads from the pipelines
  that name its output, in the order of their declaration. -/
  sinks : List.Forall₂ (fun e o => e.id? = some o.id ∧
      e.inputs? = some ((plan.pipelines.filter (o.name ∈ ·.outputs)).map Pipeline.id))
    (elements.filter (·.part = .sinks)) plan.referenced
  /-- What a source or a transform provides is read by an element that stands after it. -/
  read : ∀ before c after, elements = before ++ c :: after →
    c.part = .sources ∨ c.part = .transforms →
      ∃ e ∈ after, ∃ ids, e.inputs? = some ids ∧ ∃ id ∈ ids, c.Provides id

end Plan

/-- **Components are wired to each other.** The names that transforms and sinks read from lead to
components before them, sinks read from the pipelines of their outputs, and every source and
transform has a reader. -/
theorem Topology.wired {t : Topology} {plan : Plan} {secrets : Secrets} {settings : Settings}
    {elements : List Element} (h : t.resolve = .ok plan)
    (he : plan.elements secrets settings = .ok elements) : plan.Wired elements := by
  have hsound := Plan.sound_of_resolve h
  have hforwards : ∀ p ∈ plan.pipelines, p.Forwards := fun p => Plan.forwards_of_resolve h
  obtain ⟨served, hs, rfl⟩ := hsound.elements_eq_ok_iff.1 he
  have hordered : (plan.sequence secrets settings served).Pairwise (·.precedes ·) :=
    (hsound.pairwise_sequence hs).imp And.left
  refine ⟨fun before e after hsplit hpart => ?_, ?_, fun before c after hsplit hpart => ?_⟩
  · have hmem : e ∈ plan.sequence secrets settings served := by simp [hsplit]
    have hsource : e.part ≠ .sources := by rcases hpart with hpart | hpart <;> simp [hpart]
    obtain ⟨ids, hids, hne, hnodup, hall⟩ := hsound.exists_provider hforwards hs hmem hsource
    refine ⟨ids, hids, hne, hnodup, fun id hid => ?_⟩
    obtain ⟨c, hc, hbefore, hprovides⟩ := hall id hid
    rw [hsplit] at hordered hc
    exact ⟨c, hbefore.mem_before hordered hc, hprovides⟩
  · rw [Plan.filter_sinks_sequence, ← (Plan.served_eq_ok_iff.1 hs).1, Plan.sinksOf,
      List.forall₂_map_left_iff, List.forall₂_map_right_iff, List.forall₂_same]
    exact fun s _ => ⟨Plan.id?_sinkWith .., Plan.inputs?_sinkWith ..⟩
  · have hmem : c ∈ plan.sequence secrets settings served := by simp [hsplit]
    have hsink : c.part ≠ .sinks := by rcases hpart with hpart | hpart <;> simp [hpart]
    obtain ⟨e, he, hafter, ids, hids, id, hid, hprovides⟩ :=
      hsound.exists_reader hforwards hs hmem hsink
    rw [hsplit] at hordered he
    exact ⟨e, hafter.mem_after hordered he, ids, hids, id, hid, hprovides⟩

/-- Two pipelines that share an input and an output. -/
def crossing : Topology where
  pipelines :=
    [{ name := "Apps", inputs := ["application"], outputs := ["store"] },
      { name := "All", inputs := ["infrastructure", "application"], outputs := ["web", "store"] }]
  outputs :=
    [{ name := "store", type := .loki, url := some "http://loki" },
      { name := "web", type := .http, url := some "http://web" }]

/-- The plan of the crossing. -/
def crossingPlan : Plan where
  pipelines :=
    [⟨"Apps", "apps", [.application], ["store"]⟩,
      ⟨"All", "all", [.infrastructure, .application], ["web", "store"]⟩]
  outputs := (∅ : Outputs)
    |>.insert "store" ⟨"store", "store", .loki, some "http://loki", none, none⟩
    |>.insert "web" ⟨"web", "web", .http, some "http://web", none, none⟩

/-- The components of the crossing, of which the shared ones stand once. -/
theorem wired_crossing :
    ∃ elements, crossing.resolve = .ok crossingPlan ∧
      crossingPlan.elements ∅ {} = .ok elements ∧
      elements.filterMap Element.id? =
        ["container_logs", "journal_logs", "route_container_logs", "application", "infrastructure",
          "apps", "all", "store", "web"] ∧
      crossingPlan.Wired elements := by
  have hplan : crossing.resolve = .ok crossingPlan := by decide +kernel
  have hserved : ∃ served, crossingPlan.served ∅ = .ok served ∧
      (crossingPlan.sequence ∅ {} served).filterMap Element.id? =
        ["container_logs", "journal_logs", "route_container_logs", "application",
          "infrastructure", "apps", "all", "store", "web"] :=
    map_eq_ok_iff.1 (by decide +kernel)
  obtain ⟨served, hs, hids⟩ := hserved
  have helements : crossingPlan.elements ∅ {} = .ok (crossingPlan.sequence ∅ {} served) :=
    (Plan.sound_of_resolve hplan).elements_eq_ok hs
  exact ⟨_, hplan, helements, hids, Topology.wired hplan helements⟩

end LogForwarding
