/-
# Headers as keys

TOML accepts a line as the header of a table if it is made of keys, with
points between them, in brackets. A key without quotes is not empty, and holds
ASCII letters and digits, underscores and dashes only. Component ids hold no
other characters, so nothing but an empty id can spoil a header. A pipeline
without a name is called after its position, and has an id; an output may be
declared under the empty name, and then the headers of its sink are no headers
of TOML.

Key definitions: `Toml.isBareKey`, `Toml.isTableHeader`.
Key theorems: `Toml.isTableHeader_header`,
`Plan.Sound.isTableHeader_iff_of_mem_places`,
`Topology.isTableHeader_headers_iff`.
-/
import LogForwarding.Proofs.Document.Headers

namespace LogForwarding

open Toml

/-! ### Keys and headers of TOML -/

/-- `c` may stand in a key without quotes. -/
def Toml.isBareChar (c : Char) : Bool := c.isAlphanum || c == '_' || c == '-'

/-- The text can be written as a key without quotes. -/
def Toml.isBareKey (cs : List Char) : Bool := !cs.isEmpty && cs.all isBareChar

/-- The line is a header of a table: keys with points between them, in brackets. -/
def Toml.isTableHeader (line : String) : Bool :=
  line.toList.head? == some '[' && line.toList.getLast? == some ']' &&
    ((line.toList.drop 1).dropLast.splitOn '.').all isBareKey

/-- Between the brackets stands a name, of which each part must be a key. -/
theorem Toml.isTableHeader_header (name : String) :
    isTableHeader (header name) = (name.toList.splitOn '.').all isBareKey := by
  have hlist : (header name).toList = '[' :: (name.toList ++ [']']) := by
    simp [header]
  have hlast : (header name).toList.getLast? = some ']' := by
    rw [hlist, ← List.cons_append, List.getLast?_concat]
  rw [isTableHeader, hlast, hlist, List.drop_one, List.tail_cons, List.dropLast_concat]
  simp

theorem isBareChar_of_isIdChar {c : Char} (h : isIdChar c) : isBareChar c := by
  unfold isIdChar at h
  unfold isBareChar Char.isAlphanum Char.isAlpha
  simp only [Bool.or_eq_true] at h
  rcases h with (hlower | hdigit) | hunderscore
  · rw [hlower, Bool.or_true, Bool.true_or, Bool.true_or, Bool.true_or]
  · rw [hdigit, Bool.or_true, Bool.true_or, Bool.true_or]
  · rw [hunderscore, Bool.or_true, Bool.true_or]

/-- Of the characters of component ids every text but the empty one is a key. -/
theorem isBareKey_iff {s : String} (h : ∀ c ∈ s.toList, isIdChar c) :
    isBareKey s.toList ↔ s ≠ "" := by
  have hall : s.toList.all isBareChar = true :=
    List.all_eq_true.2 fun c hc => isBareChar_of_isIdChar (h c hc)
  rw [isBareKey, hall, Bool.and_true, Bool.not_eq_true', List.isEmpty_eq_false_iff, ne_eq,
    String.toList_eq_nil_iff]

/-- A name is made from a component id, and is empty only if the id is. -/
theorem componentId_eq_empty_iff {name : String} : componentId name = "" ↔ name = "" := by
  unfold componentId
  rw [← String.toList_eq_nil_iff, String.toList_ofList, List.map_eq_nil_iff,
    String.toList_eq_nil_iff]

theorem Credential.Kind.empty_notMem_suffixes (trusted : Bool) (kind : Kind) :
    "" ∉ kind.suffixes trusted := by
  cases kind <;> cases trusted <;> decide

/-! ### The parts of a name -/

/-- The parts of the name of a place are those that it is made from. -/
theorem Place.splitOn_name {p : Place} (hm : '.' ∉ p.middle.toList)
    (hl : ∀ last ∈ p.last?, '.' ∉ last.toList) :
    p.name.toList.splitOn '.' =
      p.sort.toList :: p.middle.toList :: (p.last?.map String.toList).toList := by
  rw [toList_name, List.splitOn_append_cons_self_of_not_mem p.point_notMem_sort]
  cases hlast : p.last? with
  | none => simp [List.splitOn_eq_singleton hm]
  | some last =>
    rw [Option.elim_some, List.splitOn_append_cons_self_of_not_mem hm,
      List.splitOn_eq_singleton (hl last hlast)]
    rfl

namespace Plan

variable {plan : Plan} {secrets : Secrets} {settings : Settings} {t : Topology}

theorem last_ne_of_mem_places {p : Place} (hp : p ∈ plan.places secrets) :
    ∀ last ∈ p.last?, last ≠ "" := by
  simp only [places, sinkPlaces, List.mem_append, List.mem_map, List.mem_flatMap,
    List.mem_cons] at hp
  rcases hp with ⟨log, _, rfl⟩ | ⟨id, _, rfl⟩ | ⟨o, _, rfl | ⟨suffix, hsuffix, rfl⟩⟩
  · simp [Place.last?]
  · simp [Place.last?]
  · simp [Place.last?]
  · rintro _ ⟨⟩ rfl
    exact Credential.Kind.empty_notMem_suffixes _ _ hsuffix

/-- **A header is spoilt by an empty id only.** -/
theorem Sound.isTableHeader_iff_of_mem_places (h : plan.Sound) {p : Place}
    (hp : p ∈ plan.places secrets) : isTableHeader (header p.name) ↔ p.middle ≠ "" := by
  obtain ⟨hmiddle, hlast⟩ := h.spelled_of_mem_places hp
  have hpoint : ∀ {s : String}, (∀ c ∈ s.toList, isIdChar c) → '.' ∉ s.toList :=
    fun hs hmem => absurd (hs '.' hmem) (by decide)
  have hsort : isBareKey p.sort.toList := by
    cases p <;> simp only [Place.sort] <;> decide +kernel
  have hlast' : ∀ last ∈ p.last?, isBareKey last.toList := fun last hl =>
    (isBareKey_iff (hlast last hl)).2 (last_ne_of_mem_places hp last hl)
  rw [isTableHeader_header,
    Place.splitOn_name (hpoint hmiddle) fun last hl => hpoint (hlast last hl), List.all_cons,
    List.all_cons, hsort, Bool.true_and, ← isBareKey_iff hmiddle, Bool.and_eq_true,
    and_iff_left]
  simpa using hlast'

/-! ### The output without a name -/

theorem middle_of_mem_sinkPlaces {p : Place} {o : Output} (hp : p ∈ sinkPlaces secrets o) :
    p.middle = o.id := by
  simp only [sinkPlaces, List.mem_cons, List.mem_map] at hp
  rcases hp with rfl | ⟨_, _, rfl⟩ <;> rfl

/-- Every transform has an id, also that of a pipeline which is declared without a name. -/
theorem transformId_ne (h : t.resolve = .ok plan) {id : String} (hid : id ∈ plan.transformIds) :
    id ≠ "" := by
  simp only [transformIds, List.mem_append] at hid
  rcases hid with (hid | hid) | hid
  · split_ifs at hid
    · rw [List.mem_singleton.1 hid]
      decide
    · cases hid
  · obtain ⟨input, _, rfl⟩ := List.mem_map.1 hid
    cases input <;> decide
  · rw [(Topology.isPlan_of_resolve h).pipelines.map_id, effectiveNames, List.map_map] at hid
    obtain ⟨⟨p, position⟩, _, rfl⟩ := List.mem_map.1 hid
    exact fun heq => p.effectiveName_ne position (componentId_eq_empty_iff.1 heq)

/-- Only the sink of an output with the empty name has an empty id. -/
theorem exists_nameless_of_middle_eq (h : t.resolve = .ok plan) {p : Place}
    (hp : p ∈ plan.places secrets) (hm : p.middle = "") :
    ∃ o ∈ plan.referenced, o.name = "" ∧ o.id = "" ∧ p ∈ sinkPlaces secrets o := by
  simp only [places, List.mem_append, List.mem_map, List.mem_flatMap] at hp
  rcases hp with ⟨log, _, rfl⟩ | ⟨id, hid, rfl⟩ | ⟨o, ho, hp⟩
  · exact absurd hm (by cases log <;> decide)
  · exact absurd hm (transformId_ne h hid)
  · have hid : o.id = "" := by rw [← middle_of_mem_sinkPlaces hp, hm]
    refine ⟨o, ho, ?_, hid, hp⟩
    rwa [(sound_of_resolve h).output_id o (mem_list_of_mem_referenced ho),
      componentId_eq_empty_iff] at hid

/-- The headers of the sink of this output. -/
theorem sinkHeaders_empty_subset (kind : Credential.Kind) (trusted : Bool) :
    sinkHeaders "" kind trusted ⊆ ["[sinks.]", "[sinks..auth]", "[sinks..tls]"] := by
  cases kind <;> cases trusted <;> decide

end Plan

/-- **Headers are headers of TOML, if no pipeline names an output that has no name.** Of the others
none is spoilt: those of the sink of that output are all that can fail, and they do. -/
theorem Topology.isTableHeader_headers_iff {t : Topology} {secrets : Secrets} {settings : Settings}
    {text : String} (h : t.configuration secrets settings = .ok text) :
    (∀ line ∈ Text.headers text,
      isTableHeader line ∨ line ∈ ["[sinks.]", "[sinks..auth]", "[sinks..tls]"]) ∧
    ((∀ line ∈ Text.headers text, isTableHeader line) ↔ ∀ p ∈ t.pipelines, "" ∉ p.outputs) := by
  obtain ⟨plan, served, hplan, hs, rfl⟩ := configuration_eq_ok_iff.1 h
  have hsound := Plan.sound_of_resolve hplan
  rw [hsound.headers_eq hs settings, List.forall_mem_map, List.forall_mem_map]
  have hkey : ∀ p ∈ plan.places secrets, isTableHeader (header p.name) ↔ p.middle ≠ "" :=
    fun p => hsound.isTableHeader_iff_of_mem_places
  constructor
  · intro p hp
    by_cases hm : p.middle = ""
    · -- The place belongs to the sink of the output without a name.
      right
      obtain ⟨o, _, _, hid, hpo⟩ := Plan.exists_nameless_of_middle_eq hplan hp hm
      have hheader := List.mem_map_of_mem hpo (f := (header ·.name))
      rw [Plan.map_header_sinkPlaces, hid] at hheader
      exact Plan.sinkHeaders_empty_subset _ _ hheader
    · exact .inl ((hkey p hp).2 hm)
  · constructor
    · intro hall p hp hname
      obtain ⟨o, ho, hempty⟩ :=
        List.mem_map.1 ((mem_map_name_referenced_iff hplan).2 ⟨p, hp, hname⟩)
      have hsink : Place.sink o.id ∈ plan.places secrets :=
        List.mem_append_right _ (List.mem_append_right _
          (List.mem_flatMap.2 ⟨o, ho, List.mem_cons_self⟩))
      apply (hkey _ hsink).1 (hall _ hsink)
      show o.id = ""
      rw [hsound.output_id o (Plan.mem_list_of_mem_referenced ho), hempty]
      rfl
    · intro hnone p hp
      rw [hkey p hp]
      intro hm
      obtain ⟨o, ho, hempty, _, _⟩ := Plan.exists_nameless_of_middle_eq hplan hp hm
      obtain ⟨q, hq, hname⟩ :=
        (mem_map_name_referenced_iff hplan).1 (List.mem_map.2 ⟨o, ho, hempty⟩)
      exact hnone q hq hname

/-- A pipeline without a name, and an output of which the name is no key. -/
def outlandish : Topology where
  pipelines := [{ inputs := ["audit"], outputs := ["Größe [1.2]"] }]
  outputs :=
    [{ name := "Größe [1.2]", type := .http, url := some "http://web", secret := some "web" },
      { name := "", type := .http, url := some "http://unused" }]

/-- A user name, a password and trusted certificates. -/
def outlandishSecrets : Secrets := (∅ : Secrets).insert "web" <| (∅ : Secret)
  |>.insert SecretKey.username "me".toUTF8
  |>.insert SecretKey.password "pass".toUTF8
  |>.insert SecretKey.trustedCa "pem".toUTF8

/-- The plan of this topology. -/
def outlandishPlan : Plan where
  pipelines := [⟨"pipeline_0", "pipeline_0", [.audit], ["Größe [1.2]"]⟩]
  outputs := (∅ : Outputs)
    |>.insert "Größe [1.2]"
      ⟨"Größe [1.2]", "gr__e__1_2_", .http, some "http://web", some "web", none⟩
    |>.insert "" ⟨"", "", .http, some "http://unused", none, none⟩

/-- All headers are headers of TOML; the output without a name is not referred to. -/
theorem isTableHeader_headers_outlandish :
    ∃ text, outlandish.configuration outlandishSecrets {} = .ok text ∧
      "[sinks.gr__e__1_2_.auth]" ∈ Text.headers text ∧
      ∀ line ∈ Text.headers text, isTableHeader line := by
  have hresolve : outlandish.resolve = .ok outlandishPlan := by decide +kernel
  have hs : outlandishPlan.served outlandishSecrets =
      .ok (outlandishPlan.referenced.map (·, .basic "web" "me" "pass")) := by
    decide +kernel
  have htext := Topology.configuration_eq_ok hresolve hs {}
  refine ⟨_, htext, ?_, (Topology.isTableHeader_headers_iff htext).2.2 (by decide)⟩
  rw [(Plan.sound_of_resolve hresolve).headers_eq hs]
  decide +kernel

/-- A pipeline that names an output without a name. -/
def nameless : Topology where
  pipelines := [{ name := "p", inputs := ["audit"], outputs := [""] }]
  outputs := [{ name := "", type := .http, url := some "http://web" }]

/-- The plan of this topology. -/
def namelessPlan : Plan where
  pipelines := [⟨"p", "p", [.audit], [""]⟩]
  outputs := (∅ : Outputs).insert "" ⟨"", "", .http, some "http://web", none, none⟩

/-- Its configuration has a header that is none of TOML. -/
theorem not_isTableHeader_nameless :
    ∃ text, nameless.configuration ∅ {} = .ok text ∧
      ∃ line ∈ Text.headers text, line = "[sinks.]" ∧ ¬ isTableHeader line := by
  have hresolve : nameless.resolve = .ok namelessPlan := by decide +kernel
  have hs : namelessPlan.served ∅ = .ok (namelessPlan.referenced.map (·, .anonymous)) := by
    decide +kernel
  refine ⟨_, Topology.configuration_eq_ok hresolve hs {}, "[sinks.]", ?_, rfl, by decide +kernel⟩
  rw [(Plan.sound_of_resolve hresolve).headers_eq hs]
  decide +kernel

end LogForwarding
