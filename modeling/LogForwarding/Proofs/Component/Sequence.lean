/-
# The components of a plan, in order

The arrangement of what pipelines and sinks contribute can be written down
without merging and sorting: the sources of the logs that some pipeline needs,
in order of rank; the split of the container logs, where an input uses it; the
markings of the inputs that some pipeline names, in order of rank; the
collectors of the pipelines, in the order of their declaration; and the sinks
of the outputs that pipelines name, in the order in which they are first
named.

Key definitions: `Plan.usedLogs`, `Plan.usedInputs`, `Plan.served`,
`Plan.sequence`.
Key theorems: `Plan.Sound.elements_eq_ok`, `Plan.Sound.elements_eq_ok_iff`.
-/
import LogForwarding.Proofs.Arrangement
import LogForwarding.Proofs.Configuration

namespace LogForwarding

/-! ### Section and rank of the components -/

@[simp] theorem NodeLog.part_source (settings : Settings) (log : NodeLog) :
    (log.source settings).part = .sources := by
  cases log <;> rfl

@[simp] theorem NodeLog.rank_source (settings : Settings) (log : NodeLog) :
    (log.source settings).rank = log.rank := by
  cases log <;> rfl

@[simp] theorem part_route : route.part = .transforms := rfl

@[simp] theorem rank_route : route.rank = 0 := rfl

@[simp] theorem Input.part_marking (input : Input) : input.marking.part = .transforms := rfl

@[simp] theorem Input.rank_marking (input : Input) : input.marking.rank = 1 + input.rank := rfl

@[simp] theorem Pipeline.part_collector (p : Pipeline) : p.collector.part = .transforms := rfl

@[simp] theorem Pipeline.rank_collector (p : Pipeline) : p.collector.rank = 10 := rfl

@[simp] theorem Plan.part_sinkWith (plan : Plan) (secrets : Secrets) (settings : Settings)
    (o : Output) (credential : Credential) :
    (plan.sinkWith secrets settings o credential).part = .sinks := by
  unfold sinkWith Output.setTarget
  cases o.type <;> rfl

@[simp] theorem Plan.rank_sinkWith (plan : Plan) (secrets : Secrets) (settings : Settings)
    (o : Output) (credential : Credential) :
    (plan.sinkWith secrets settings o credential).rank = 0 := by
  unfold sinkWith Output.setTarget
  cases o.type <;> rfl

theorem Plan.name_sinkWith (plan : Plan) (secrets : Secrets) (settings : Settings)
    (o : Output) (credential : Credential) :
    (plan.sinkWith secrets settings o credential).name = "sinks." ++ o.id := by
  unfold sinkWith Output.setTarget
  cases o.type <;> rfl

theorem Input.mem_all (input : Input) : input ∈ Input.all := by
  cases input <;> decide

theorem NodeLog.mem_all (log : NodeLog) : log ∈ NodeLog.all := by
  cases log <;> decide

theorem Input.rank_lt (input : Input) : input.rank < 3 := by
  cases input <;> decide

/-- Different pipelines have different collectors. -/
theorem Pipeline.id_eq_of_collector_eq {p q : Pipeline} (h : p.collector = q.collector) :
    p.id = q.id := by
  have hname : "transforms." ++ p.id = "transforms." ++ q.id := congrArg Element.name h
  simpa using hname

/-- No pipeline contributes the collector of another. -/
theorem Pipeline.collector_notMem {settings : Settings} {p q : Pipeline} (h : p.id ≠ q.id) :
    q.collector ∉ p.sources settings ++ p.transforms := by
  rw [List.mem_append, not_or]
  constructor
  · intro hmem
    obtain ⟨log, _, heq⟩ := List.mem_map.1 hmem
    have hpart := congrArg Element.part heq
    simp at hpart
  · intro hmem
    rcases mem_transforms.1 hmem with ⟨_, heq⟩ | ⟨input, _, heq⟩ | heq
    · have hrank := congrArg Element.rank heq
      simp at hrank
    · have hrank := congrArg Element.rank heq
      have hlt := input.rank_lt
      simp at hrank
      omega
    · exact h (id_eq_of_collector_eq heq).symm

namespace Plan

variable {plan : Plan} {secrets : Secrets} {settings : Settings}

/-- The logs that some pipeline needs, in order of rank. -/
def usedLogs (plan : Plan) : List NodeLog :=
  NodeLog.all.filter fun log => plan.pipelines.any (log ∈ ·.logs)

/-- The inputs that some pipeline names, in order of rank. -/
def usedInputs (plan : Plan) : List Input :=
  Input.all.filter fun input => plan.pipelines.any (input ∈ ·.inputs)

/-- Some pipeline takes a part of the container logs. -/
def usesContainers (plan : Plan) : Bool := plan.pipelines.any (·.inputs.any Input.usesContainers)

/-- The outputs that pipelines name, each with its credential. -/
def served (plan : Plan) (secrets : Secrets) : Except Fault (List (Output × Credential)) :=
  plan.referenced.mapM fun o => (o.credential secrets).map (o, ·)

/-- The transforms that pipelines share. -/
def sharedTransforms (plan : Plan) : List Element :=
  (if plan.usesContainers then [route] else []) ++ plan.usedInputs.map Input.marking

/-- The sinks of outputs with their credentials. -/
def sinksOf (plan : Plan) (secrets : Secrets) (settings : Settings)
    (served : List (Output × Credential)) : List Element :=
  served.map fun (o, credential) => plan.sinkWith secrets settings o credential

/-- The components of the plan, in the order of the document. -/
def sequence (plan : Plan) (secrets : Secrets) (settings : Settings)
    (served : List (Output × Credential)) : List Element :=
  plan.usedLogs.map (NodeLog.source settings) ++ (plan.sharedTransforms ++
    (plan.pipelines.map Pipeline.collector ++ plan.sinksOf secrets settings served))

theorem mem_usedLogs {log : NodeLog} :
    log ∈ plan.usedLogs ↔ ∃ p ∈ plan.pipelines, ∃ input ∈ p.inputs, log ∈ input.logs := by
  simp [usedLogs, log.mem_all, Pipeline.logs]

theorem mem_usedInputs {input : Input} :
    input ∈ plan.usedInputs ↔ ∃ p ∈ plan.pipelines, input ∈ p.inputs := by
  simp [usedInputs, input.mem_all]

theorem usesContainers_iff :
    plan.usesContainers ↔ ∃ p ∈ plan.pipelines, p.inputs.any Input.usesContainers := by
  simp [usesContainers]

/-! ### Outputs with their credentials -/

theorem served_eq_ok_iff {served : List (Output × Credential)} :
    plan.served secrets = .ok served ↔
      served.map Prod.fst = plan.referenced ∧
        ∀ s ∈ served, s.1.credential secrets = .ok s.2 := by
  rw [Plan.served, mapM_eq_ok_iff]
  simp only [map_eq_ok_iff]
  constructor
  · intro h
    have hfst : List.Forall₂ (fun o s => o = s.1) plan.referenced served :=
      h.imp fun o s ⟨_, _, hs⟩ => congrArg Prod.fst hs
    refine ⟨?_, fun s hs => ?_⟩
    · rwa [eq_comm, ← List.forall₂_eq_eq_eq, List.forall₂_map_right_iff]
    · obtain ⟨o, _, credential, hc, rfl⟩ := exists_mem_of_forall₂ h hs
      exact hc
  · rintro ⟨hfst, hall⟩
    rw [← hfst, List.forall₂_map_left_iff, List.forall₂_same]
    exact fun s hs => ⟨s.2, hall s hs, rfl⟩

/-- Each output that pipelines name is there with its credential. -/
theorem exists_mem_served {served : List (Output × Credential)}
    (hs : plan.served secrets = .ok served) {o : Output} (ho : o ∈ plan.referenced) :
    ∃ credential, o.credential secrets = .ok credential ∧ (o, credential) ∈ served := by
  obtain ⟨hreferenced, hcredentials⟩ := served_eq_ok_iff.1 hs
  rw [← hreferenced] at ho
  obtain ⟨⟨o, credential⟩, hmem, rfl⟩ := List.mem_map.1 ho
  exact ⟨credential, hcredentials (o, credential) hmem, hmem⟩

theorem sinks_eq_map_served :
    plan.sinks secrets settings = (plan.served secrets).map (plan.sinksOf secrets settings) := by
  have hsink : ∀ o, plan.sink secrets settings o =
      ((o.credential secrets).map (o, ·)).map
        fun (o, credential) => plan.sinkWith secrets settings o credential := by
    intro o
    rw [sink_eq_map]
    cases o.credential secrets <;> rfl
  rw [sinks, funext hsink, mapM_map_right]
  rfl

/-- Where each output has its credential, the sinks are those of these outputs. -/
theorem sinks_eq_ok {served : List (Output × Credential)} (hs : plan.served secrets = .ok served) :
    plan.sinks secrets settings = .ok (plan.sinksOf secrets settings served) := by
  rw [sinks_eq_map_served, hs]
  rfl

/-- No two sinks have one id. -/
theorem Sound.referenced_ids_nodup (h : plan.Sound) : (plan.referenced.map Output.id).Nodup := by
  have hnames := h.firstSeen_referenced.nodup
  refine (List.Nodup.of_map _ hnames).map_on fun o ho o' ho' hid => ?_
  exact h.eq_of_id_eq (mem_list_of_mem_referenced ho) (mem_list_of_mem_referenced ho') hid

/-! ### The arrangement -/

/-- What pipelines contribute, one after the other. -/
def pipelineParts (plan : Plan) (settings : Settings) : List Element :=
  plan.pipelines.flatMap fun p => p.sources settings ++ p.transforms

theorem flatten_contributions (plan : Plan) (settings : Settings) (roots : List Element) :
    (plan.contributions settings roots).flatten =
      plan.pipelineParts settings ++ roots := by
  rw [contributions, pipelineParts, List.flatten_append, List.flatten_singleton]
  congr 1
  induction plan.pipelines with
  | nil => rfl
  | cons p ps ih => simp [ih]

theorem mem_sharedTransforms {e : Element} :
    e ∈ plan.sharedTransforms ↔
      plan.usesContainers ∧ e = route ∨ ∃ input ∈ plan.usedInputs, input.marking = e := by
  unfold sharedTransforms
  split_ifs with h <;> simp [h]

/-- The sources of the used logs are those that pipelines need. -/
theorem mem_map_source_usedLogs {e : Element} :
    e ∈ plan.usedLogs.map (NodeLog.source settings) ↔
      ∃ p ∈ plan.pipelines, e ∈ p.sources settings := by
  simp only [usedLogs, Pipeline.sources, List.mem_map, List.mem_filter, NodeLog.mem_all,
    true_and, List.any_eq_true, decide_eq_true_eq]
  tauto

/-- The components are those that are contributed. -/
theorem mem_sequence {served : List (Output × Credential)} {e : Element} :
    e ∈ plan.sequence secrets settings served ↔
      e ∈ (plan.contributions settings (plan.sinksOf secrets settings served)).flatten := by
  have htransforms : e ∈ plan.sharedTransforms ∨ e ∈ plan.pipelines.map Pipeline.collector ↔
      ∃ p ∈ plan.pipelines, e ∈ p.transforms := by
    simp only [mem_sharedTransforms, usesContainers_iff, mem_usedInputs, List.mem_map,
      Pipeline.mem_transforms]
    constructor
    · rintro ((⟨⟨p, hp, hi⟩, rfl⟩ | ⟨input, ⟨p, hp, hi⟩, rfl⟩) | ⟨p, hp, rfl⟩)
      · exact ⟨p, hp, .inl ⟨hi, rfl⟩⟩
      · exact ⟨p, hp, .inr (.inl ⟨input, hi, rfl⟩)⟩
      · exact ⟨p, hp, .inr (.inr rfl)⟩
    · rintro ⟨p, hp, ⟨hi, rfl⟩ | ⟨input, hi, rfl⟩ | rfl⟩
      · exact .inl (.inl ⟨⟨p, hp, hi⟩, rfl⟩)
      · exact .inl (.inr ⟨input, ⟨p, hp, hi⟩, rfl⟩)
      · exact .inr ⟨p, hp, rfl⟩
  rw [mem_contributions, sequence, List.mem_append, List.mem_append, List.mem_append,
    mem_map_source_usedLogs, ← or_assoc (a := e ∈ plan.sharedTransforms), htransforms, ← or_assoc,
    ← exists_or]
  simp only [and_or_left]

/-- What the components are. -/
theorem mem_sequence_iff {served : List (Output × Credential)} {e : Element} :
    e ∈ plan.sequence secrets settings served ↔
      (∃ log ∈ plan.usedLogs, log.source settings = e) ∨ plan.usesContainers ∧ e = route ∨
        (∃ input ∈ plan.usedInputs, input.marking = e) ∨ (∃ p ∈ plan.pipelines, p.collector = e) ∨
          ∃ s ∈ served, plan.sinkWith secrets settings s.1 s.2 = e := by
  simp only [sequence, List.mem_append, mem_sharedTransforms, sinksOf, List.mem_map, or_assoc]

theorem part_of_mem_sharedTransforms {e : Element} (h : e ∈ plan.sharedTransforms) :
    e.part = .transforms ∧ e.rank < 10 := by
  rcases mem_sharedTransforms.1 h with ⟨_, rfl⟩ | ⟨input, _, rfl⟩
  · simp
  · have hlt := input.rank_lt
    simp
    omega

theorem part_of_mem_sinksOf {served : List (Output × Credential)} {e : Element}
    (h : e ∈ plan.sinksOf secrets settings served) : e.part = .sinks ∧ e.rank = 0 := by
  obtain ⟨s, _, rfl⟩ := List.mem_map.1 h
  simp

theorem part_of_mem_collectors {e : Element} (h : e ∈ plan.pipelines.map Pipeline.collector) :
    e.part = .transforms ∧ e.rank = 10 := by
  obtain ⟨p, _, rfl⟩ := List.mem_map.1 h
  exact ⟨rfl, rfl⟩

theorem part_of_mem_sources {e : Element}
    (h : e ∈ plan.usedLogs.map (NodeLog.source settings)) : e.part = .sources := by
  obtain ⟨log, _, rfl⟩ := List.mem_map.1 h
  exact log.part_source settings

theorem pairwise_sources :
    (plan.usedLogs.map (NodeLog.source settings)).Pairwise Element.StandsBefore := by
  have hall : NodeLog.all.Pairwise (·.rank < ·.rank) := by decide
  exact List.pairwise_map.2 ((hall.filter _).imp fun hlt => .inr (by simpa using hlt))

theorem pairwise_sharedTransforms : plan.sharedTransforms.Pairwise Element.StandsBefore := by
  have hall : Input.all.Pairwise (·.rank < ·.rank) := by decide
  have hmarkings : (plan.usedInputs.map Input.marking).Pairwise Element.StandsBefore :=
    List.pairwise_map.2 ((hall.filter _).imp fun hlt => .inr (by simpa using hlt))
  unfold sharedTransforms
  split_ifs
  · refine List.pairwise_cons.2 ⟨fun e he => ?_, hmarkings⟩
    obtain ⟨input, _, rfl⟩ := List.mem_map.1 he
    exact .inr ⟨rfl, Nat.lt_add_right _ Nat.one_pos⟩
  · exact hmarkings

/-- Collectors are contributed in the order of their pipelines. -/
theorem Sound.pairwise_collectors (h : plan.Sound) (settings : Settings) (rest : List Element) :
    (plan.pipelines.map Pipeline.collector).Pairwise fun a b =>
      (plan.pipelineParts settings ++ rest).idxOf a <
        (plan.pipelineParts settings ++ rest).idxOf b := by
  have hids : plan.pipelines.Pairwise fun p q => p.id ≠ q.id :=
    List.pairwise_map.1 (List.nodup_append'.1 (List.nodup_append'.1 h.ids_nodup).1).1
  exact pairwise_idxOf_flatMap _ [] rest (by simp)
    (fun p _ => List.mem_append_right _ (Pipeline.mem_transforms.2 (.inr (.inr rfl))))
    (hids.imp Pipeline.collector_notMem)

/-- Sinks are contributed in the order of their outputs. -/
theorem Sound.pairwise_sinksOf (h : plan.Sound) {served : List (Output × Credential)}
    (hs : plan.served secrets = .ok served) :
    (plan.sinksOf secrets settings served).Pairwise fun a b =>
      (plan.pipelineParts settings ++ plan.sinksOf secrets settings served).idxOf a <
        (plan.pipelineParts settings ++ plan.sinksOf secrets settings served).idxOf b := by
  have hnodup := h.referenced_ids_nodup
  rw [← (served_eq_ok_iff.1 hs).1, List.map_map] at hnodup
  have hnew : ∀ s ∈ served,
      plan.sinkWith secrets settings s.1 s.2 ∉ plan.pipelineParts settings := by
    intro s _ hmem
    obtain ⟨p, _, hp⟩ := List.mem_flatMap.1 hmem
    rcases List.mem_append.1 hp with hp | hp
    · obtain ⟨log, _, heq⟩ := List.mem_map.1 hp
      have hpart := congrArg Element.part heq
      simp at hpart
    · rcases Pipeline.mem_transforms.1 hp with ⟨_, heq⟩ | ⟨input, _, heq⟩ | heq
      all_goals
        have hpart := congrArg Element.part heq
        simp at hpart
  have hother : served.Pairwise fun s t => plan.sinkWith secrets settings t.1 t.2 ∉
      [plan.sinkWith secrets settings s.1 s.2] := by
    refine (List.pairwise_map.1 hnodup).imp fun hne hmem => hne ?_
    have hname := congrArg Element.name (List.mem_singleton.1 hmem)
    rw [name_sinkWith, name_sinkWith] at hname
    simpa using hname.symm
  have hidx := pairwise_idxOf_flatMap (fun s : Output × Credential =>
    [plan.sinkWith secrets settings s.1 s.2]) (plan.pipelineParts settings) [] hnew (by simp) hother
  simpa [sinksOf, ← List.map_eq_flatMap] using hidx

/-- The components stand by section and rank, and by first contribution where these are equal. -/
theorem Sound.pairwise_sequence (h : plan.Sound) {served : List (Output × Credential)}
    (hs : plan.served secrets = .ok served) :
    (plan.sequence secrets settings served).Pairwise fun a b => a.precedes b ∧ (b.precedes a →
      (plan.contributions settings (plan.sinksOf secrets settings served)).flatten.idxOf a <
        (plan.contributions settings (plan.sinksOf secrets settings served)).flatten.idxOf b) := by
  have htie : ∀ {a b : Element}, a.part = b.part → a.rank = b.rank → a.precedes b := by
    intro a b hpart hrank
    simp [Element.precedes, hpart, hrank]
  rw [flatten_contributions]
  refine List.pairwise_append.2 ⟨pairwise_sources.imp fun hab => hab.ordered,
    List.pairwise_append.2 ⟨pairwise_sharedTransforms.imp fun hab => hab.ordered,
      List.pairwise_append.2 ⟨?_, ?_, ?_⟩, ?_⟩, ?_⟩
  · -- Collectors compare equal.
    have hidx := h.pairwise_collectors settings (plan.sinksOf secrets settings served)
    refine hidx.imp_of_mem fun ha hb hlt => ?_
    obtain ⟨hpa, hra⟩ := part_of_mem_collectors ha
    obtain ⟨hpb, hrb⟩ := part_of_mem_collectors hb
    exact ⟨htie (hpa.trans hpb.symm) (hra.trans hrb.symm), fun _ => hlt⟩
  · -- So do sinks.
    refine (h.pairwise_sinksOf hs).imp_of_mem fun ha hb hlt => ?_
    obtain ⟨hpa, hra⟩ := part_of_mem_sinksOf ha
    obtain ⟨hpb, hrb⟩ := part_of_mem_sinksOf hb
    exact ⟨htie (hpa.trans hpb.symm) (hra.trans hrb.symm), fun _ => hlt⟩
  · intro a ha b hb
    have hpa := part_of_mem_collectors ha
    have hab : a.StandsBefore b :=
      .inl (by simp [hpa, part_of_mem_sinksOf hb, Section.position_lt_iff])
    exact hab.ordered
  · intro a ha b hb
    have hpa := part_of_mem_sharedTransforms ha
    rcases List.mem_append.1 hb with hb | hb
    · have hab : a.StandsBefore b := .inr (by simp [hpa, part_of_mem_collectors hb])
      exact hab.ordered
    · have hab : a.StandsBefore b :=
        .inl (by simp [hpa, part_of_mem_sinksOf hb, Section.position_lt_iff])
      exact hab.ordered
  · intro a ha b hb
    have hpa := part_of_mem_sources ha
    have hpb : b.part = .transforms ∨ b.part = .sinks := by
      rcases List.mem_append.1 hb with hb | hb
      · exact .inl (part_of_mem_sharedTransforms hb).1
      · rcases List.mem_append.1 hb with hb | hb
        · exact .inl (part_of_mem_collectors hb).1
        · exact .inr (part_of_mem_sinksOf hb).1
    have hab : a.StandsBefore b :=
      .inl (by rcases hpb with hpb | hpb <;> simp [hpa, hpb, Section.position_lt_iff])
    exact hab.ordered

/-- **The components of a plan stand in this order.** -/
theorem Sound.elements_eq_ok (h : plan.Sound) {served : List (Output × Credential)}
    (hs : plan.served secrets = .ok served) :
    plan.elements secrets settings = .ok (plan.sequence secrets settings served) := by
  have hroots : plan.sinks secrets settings = .ok _ := sinks_eq_ok hs
  have hc := h.coherent_contributions hroots
  have hflat : ∀ elements : List Element, elements ⊆ Element.treeList elements :=
    fun _ e he => Element.mem_treeList.2 ⟨e, he, e.mem_tree_self⟩
  exact bind_eq_ok_iff.2 ⟨_, hroots, arrange_eq_ok_of_pairwise (hc.subset (hflat _))
    (fun e => mem_sequence) (h.pairwise_sequence hs)⟩

theorem Sound.elements_eq_ok_iff (h : plan.Sound) {elements : List Element} :
    plan.elements secrets settings = .ok elements ↔
      ∃ served, plan.served secrets = .ok served ∧
        elements = plan.sequence secrets settings served := by
  constructor
  · intro he
    obtain ⟨roots, hroots, _⟩ := bind_eq_ok_iff.1 he
    rw [sinks_eq_map_served, map_eq_ok_iff] at hroots
    obtain ⟨served, hs, _⟩ := hroots
    rw [h.elements_eq_ok hs, Except.ok.injEq] at he
    exact ⟨served, hs, he.symm⟩
  · rintro ⟨served, hs, rfl⟩
    exact h.elements_eq_ok hs

/-! ### The sections of the sequence -/

theorem filter_sources_sequence (served : List (Output × Credential)) :
    (plan.sequence secrets settings served).filter (·.part = .sources) =
      plan.usedLogs.map (NodeLog.source settings) := by
  rw [sequence, List.filter_append, List.filter_append, List.filter_append,
    List.filter_eq_self.2 fun e he => by simp [part_of_mem_sources he],
    List.filter_eq_nil_iff.2 fun e he => by simp [part_of_mem_sharedTransforms he],
    List.filter_eq_nil_iff.2 fun e he => by simp [part_of_mem_collectors he],
    List.filter_eq_nil_iff.2 fun e he => by simp [part_of_mem_sinksOf he]]
  simp

theorem filter_transforms_sequence (served : List (Output × Credential)) :
    (plan.sequence secrets settings served).filter (·.part = .transforms) =
      plan.sharedTransforms ++ plan.pipelines.map Pipeline.collector := by
  rw [sequence, List.filter_append, List.filter_append, List.filter_append,
    List.filter_eq_nil_iff.2 fun e he => by simp [part_of_mem_sources he],
    List.filter_eq_self.2 fun e he => by simp [part_of_mem_sharedTransforms he],
    List.filter_eq_self.2 fun e he => by simp [part_of_mem_collectors he],
    List.filter_eq_nil_iff.2 fun e he => by simp [part_of_mem_sinksOf he]]
  simp

theorem filter_sinks_sequence (served : List (Output × Credential)) :
    (plan.sequence secrets settings served).filter (·.part = .sinks) =
      plan.sinksOf secrets settings served := by
  rw [sequence, List.filter_append, List.filter_append, List.filter_append,
    List.filter_eq_nil_iff.2 fun e he => by simp [part_of_mem_sources he],
    List.filter_eq_nil_iff.2 fun e he => by simp [part_of_mem_sharedTransforms he],
    List.filter_eq_nil_iff.2 fun e he => by simp [part_of_mem_collectors he],
    List.filter_eq_self.2 fun e he => by simp [part_of_mem_sinksOf he]]
  simp

end Plan

end LogForwarding
