/-
# Pipelines and outputs counted in a configuration

How many pipelines and outputs a configuration serves can be told from its
header lines: each pipeline has a transform of its own, whose id is not one of
those that every configuration may have, and each output has a sink, whose id
holds no point. The other tables of a sink have one in what stands between
`[sinks.` and the bracket.

Key definitions: `Text.idsIn`, `Text.pipelineCount`, `Text.outputCount`.
Key theorems: `Plan.Sound.pipelineCount_eq`, `Plan.Sound.outputCount_eq`.
-/
import LogForwarding.Proofs.Document.Headers

namespace LogForwarding

open Toml

/-- What a line of the form `[sort.id]` has for an id. -/
def Toml.idIn? (sort line : String) : Option String :=
  (line.toList.dropPrefix? ("[" ++ sort ++ ".").toList).bind fun rest =>
    if rest.getLast? = some ']' then some (String.ofList rest.dropLast) else none

/-- The ids of the lines of that form. -/
def Text.idsIn (sort text : String) : List String := (lines text).filterMap (idIn? sort)

/-- The ids of the transforms that pipelines share. -/
def sharedIds : List String := ["route_container_logs", "application", "infrastructure", "audit"]

/-- How many transforms are not shared. -/
def Text.pipelineCount (text : String) : Nat := (idsIn "transforms" text).countP (· ∉ sharedIds)

/-- How many sinks there are. -/
def Text.outputCount (text : String) : Nat := (idsIn "sinks" text).countP ('.' ∉ ·.toList)

/-! ### Ids of header lines -/

/-- A header line tells the id of its place from the sort of the place on. -/
theorem idIn?_header {sort : String} (hs : '.' ∉ sort.toList) (p : Place) :
    idIn? sort (header p.name) =
      if p.sort = sort then some (p.middle ++ p.last?.elim "" ("." ++ ·)) else none := by
  have hline : (header p.name).toList =
      ("[" ++ p.sort ++ ".").toList ++
        ((p.middle ++ p.last?.elim "" ("." ++ ·)).toList ++ [']']) := by
    cases hlast : p.last? <;> simp [header, p.toList_name, hlast]
  unfold idIn?
  split_ifs with heq
  · rw [hline, heq, List.dropPrefix?_append_of_beq _ (beq_self_eq_true _)]
    simp
  · rw [Option.bind_eq_none_iff]
    intro rest hrest
    obtain ⟨start, hstart, hbeq⟩ := List.dropPrefix?_eq_some_iff.1 hrest
    rw [hline, beq_iff_eq.1 hbeq] at hstart
    have hparts :
        p.sort.toList ++ '.' :: ((p.middle ++ p.last?.elim "" ("." ++ ·)).toList ++ [']']) =
        sort.toList ++ '.' :: rest := by
      simpa using hstart
    have hsame := (Place.append_inj_of_cut p.point_notMem_sort hs (by simp [Place.Cut])
      (by simp [Place.Cut]) hparts).1
    exact absurd (String.toList_inj.1 hsame) heq

/-- Only header lines have that form. -/
theorem isHeader_of_idIn? {sort line id : String} (h : idIn? sort line = some id) :
    isHeader line = true := by
  obtain ⟨rest, hrest, _⟩ := Option.bind_eq_some_iff.1 h
  obtain ⟨start, hline, hstart⟩ := List.dropPrefix?_eq_some_iff.1 hrest
  rw [beq_iff_eq.1 hstart] at hline
  simp [isHeader, hline]

/-- The ids can be told from the header lines. -/
theorem Text.idsIn_eq (sort text : String) :
    idsIn sort text = (headers text).filterMap (idIn? sort) := by
  rw [headers, List.filterMap_filter, idsIn]
  refine List.filterMap_congr fun line _ => ?_
  split_ifs with hheader
  · rfl
  · rw [Option.eq_none_iff_forall_ne_some]
    exact fun id hid => hheader (isHeader_of_idIn? hid)

/-! ### Counting the places of a plan -/

namespace Plan

variable {plan : Plan} {secrets : Secrets} {settings : Settings}
  {served : List (Output × Credential)}

/-- The transforms of a configuration. -/
theorem filterMap_transforms (plan : Plan) (secrets : Secrets) :
    (plan.places secrets).filterMap (fun p => idIn? "transforms" (header p.name)) =
      plan.transformIds := by
  have hsort : '.' ∉ "transforms".toList := by simp
  simp only [idIn?_header hsort, places, sinkPlaces, List.filterMap_append, List.filterMap_map,
    List.filterMap_flatMap]
  simp [Function.comp_def, Place.sort, Place.middle, Place.last?]

/-- The sinks of a configuration, with the tables that belong to them. -/
theorem filterMap_sinks (plan : Plan) (secrets : Secrets) :
    (plan.places secrets).filterMap (fun p => idIn? "sinks" (header p.name)) =
      plan.referenced.flatMap fun o => o.id ::
        ((o.kind secrets).suffixes (o.holds secrets SecretKey.trustedCa)).map
          fun suffix => o.id ++ ("." ++ suffix) := by
  have hsort : '.' ∉ "sinks".toList := by simp
  simp only [idIn?_header hsort, places, sinkPlaces, List.filterMap_append, List.filterMap_map,
    List.filterMap_flatMap]
  simp [Function.comp_def, Place.sort, Place.middle, Place.last?]

namespace Sound

/-- The transforms that are not shared are those of the pipelines. -/
theorem countP_transformIds (h : plan.Sound) :
    plan.transformIds.countP (· ∉ sharedIds) = plan.pipelines.length := by
  have hroute : (if plan.usesContainers then [routeId] else []).countP (· ∉ sharedIds) = 0 := by
    split_ifs
    · decide
    · rfl
  have hinputs : (plan.usedInputs.map Input.name).countP (· ∉ sharedIds) = 0 := by
    rw [List.countP_eq_zero]
    intro id hid
    obtain ⟨input, _, rfl⟩ := List.mem_map.1 hid
    cases input <;> decide
  have hbuiltin : sharedIds ⊆ builtinIds := by decide
  have hpipelines : (plan.pipelines.map Pipeline.id).countP (· ∉ sharedIds) =
      (plan.pipelines.map Pipeline.id).length := by
    rw [List.countP_eq_length]
    intro id hid
    have hown : id ∈ plan.pipelines.map Pipeline.id ++ plan.outputs.list.map Output.id :=
      List.mem_append_left _ hid
    have hnot : id ∉ builtinIds := (List.nodup_append'.1 h.ids_nodup).2.2 hown
    exact decide_eq_true fun hshared => hnot (hbuiltin hshared)
  rw [transformIds, List.countP_append, List.countP_append, hroute, hinputs, hpipelines,
    List.length_map, Nat.zero_add]

/-- Of the tables of an output, only the first counts as its sink. -/
theorem countP_sinkIds (h : plan.Sound) {o : Output} (ho : o ∈ plan.referenced)
    (suffixes : List String) :
    (o.id :: suffixes.map fun suffix => o.id ++ ("." ++ suffix)).countP ('.' ∉ ·.toList) = 1 := by
  have hsuffixes : (suffixes.map fun suffix => o.id ++ ("." ++ suffix)).countP
      ('.' ∉ ·.toList) = 0 := by
    rw [List.countP_eq_zero]
    intro id hmem
    obtain ⟨suffix, _, rfl⟩ := List.mem_map.1 hmem
    simp
  have hsink : decide ('.' ∉ o.id.toList) = true :=
    decide_eq_true (h.point_notMem_id (mem_list_of_mem_referenced ho))
  rw [List.countP_cons, hsuffixes, if_pos hsink]

/-- **The pipelines of a plan can be counted in its configuration.** -/
theorem pipelineCount_eq (h : plan.Sound) (hs : plan.served secrets = .ok served)
    (settings : Settings) :
    Text.pipelineCount (writeTables (plan.tables secrets settings served)) =
      plan.pipelines.length := by
  rw [Text.pipelineCount, Text.idsIn_eq, h.headers_eq hs, List.filterMap_map, Function.comp_def,
    filterMap_transforms, h.countP_transformIds]

/-- **The outputs that pipelines name can be counted in its configuration.** -/
theorem outputCount_eq (h : plan.Sound) (hs : plan.served secrets = .ok served)
    (settings : Settings) :
    Text.outputCount (writeTables (plan.tables secrets settings served)) =
      plan.referenced.length := by
  rw [Text.outputCount, Text.idsIn_eq, h.headers_eq hs, List.filterMap_map, Function.comp_def,
    filterMap_sinks, List.countP_flatMap]
  have hones : plan.referenced.map (fun o => (o.id ::
      ((o.kind secrets).suffixes (o.holds secrets SecretKey.trustedCa)).map
        fun suffix => o.id ++ ("." ++ suffix)).countP ('.' ∉ ·.toList)) =
      plan.referenced.map fun _ => 1 :=
    List.map_congr_left fun o ho => h.countP_sinkIds ho _
  rw [Function.comp_def, hones, List.map_const', List.sum_replicate_nat, Nat.mul_one]

end Sound

end Plan

end LogForwarding
