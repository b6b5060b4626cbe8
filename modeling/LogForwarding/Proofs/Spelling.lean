/-
# Every spelling of a topology means it

A topology can be written down in many ways: its records as objects or as
arrays, with members in any order and others among them, with fields left out
that are empty or have their usual value, with any escapes and any blanks.
`Topology.Spelled` says which texts there are for a topology. Whichever of them
is parsed, the topology is what comes out, and no other text is parsed to be it;
so no text is for two of them.

Key definitions: `topologyTexts`, `Topology.Spelled`.
Key theorems: `topology_linked`, `Topology.Spelled.unique`,
`Topology.ofJson_eq_ok_iff_spelled`.
-/
import LogForwarding.Proofs.Json.Exact.Records

namespace LogForwarding

open Json

/-! ### The texts for a topology -/

/-- A reference to a secret has a name. -/
def secretRefTexts : List (FieldTexts String) :=
  [⟨"name", SpellsString, fun _ => False⟩]

/-- A Google Cloud Logging block has a project and a log, of which the second has a usual value. -/
def googleCloudLoggingTexts : List (FieldTexts GoogleCloudLogging) :=
  [⟨"projectId", fun g => SpellsString g.projectId, fun _ => False⟩,
    ⟨"logId", fun g => SpellsString g.logId, fun g => g.logId = "vector-logs"⟩]

/-- The types of output by their names. -/
def outputTypeNames : List (String × OutputType) :=
  [("elasticsearch", .elasticsearch), ("loki", .loki), ("http", .http),
    ("googleCloudLogging", .googleCloudLogging)]

/-- An output has a name and a type; the rest may be absent, and then it may be `null` or be left
out. -/
def outputTexts : List (FieldTexts DeclaredOutput) :=
  [⟨"name", fun o => SpellsString o.name, fun _ => False⟩,
    ⟨"type", fun o => SpellsChoice outputTypeNames o.type, fun _ => False⟩,
    ⟨"url", fun o => SpellsOption SpellsString o.url, fun o => o.url = none⟩,
    ⟨"secret", fun o => SpellsOption (SpellsRecord secretRefTexts) o.secret,
      fun o => o.secret = none⟩,
    ⟨"googleCloudLogging",
      fun o => SpellsOption (SpellsRecord googleCloudLoggingTexts) o.googleCloudLogging,
      fun o => o.googleCloudLogging = none⟩]

/-- A pipeline may leave out what is empty. -/
def pipelineTexts : List (FieldTexts DeclaredPipeline) :=
  [⟨"name", fun p => SpellsString p.name, fun p => p.name = ""⟩,
    ⟨"inputRefs", fun p => SpellsArray SpellsString p.inputs, fun p => p.inputs = []⟩,
    ⟨"outputRefs", fun p => SpellsArray SpellsString p.outputs, fun p => p.outputs = []⟩]

/-- So may a topology. -/
def topologyTexts : List (FieldTexts Topology) :=
  [⟨"pipelines", fun t => SpellsArray (SpellsRecord pipelineTexts) t.pipelines,
      fun t => t.pipelines = []⟩,
    ⟨"outputs", fun t => SpellsArray (SpellsRecord outputTexts) t.outputs,
      fun t => t.outputs = []⟩]

/-- The text is one for the topology, perhaps with blanks around it. -/
def Topology.Spelled (t : Topology) (text : String) : Prop :=
  Padded (SpellsRecord topologyTexts t) text.toList

/-! ### Records and their fields -/

theorem accepts_stringReader : Accepts stringReader SpellsString := accepts_text "a string"

theorem accepts_stringsReader : Accepts stringsReader (SpellsArray SpellsString) :=
  accepts_sequence accepts_stringReader

theorem accepts_outputTypeReader : Accepts outputTypeReader (SpellsChoice outputTypeNames) :=
  accepts_choice (by decide)

theorem exact_stringReader : Exact stringReader SpellsString := exact_text "a string"

theorem exact_stringsReader : Exact stringsReader (SpellsArray SpellsString) :=
  exact_sequence exact_stringReader

theorem exact_outputTypeReader : Exact outputTypeReader (SpellsChoice outputTypeNames) :=
  exact_choice namedOutputTypes

/-- A field that was left out has the value that it has then. -/
theorem getD_eq_iff {α : Type} {drafted : Option α} {value usual : α} :
    drafted.getD usual = value ↔ drafted = some value ∨ drafted = none ∧ value = usual := by
  cases drafted with
  | none => simp [eq_comm]
  | some held => simp

theorem join_eq_iff {α : Type} {drafted : Option (Option α)} {value : Option α} :
    drafted.join = value ↔ drafted = some value ∨ drafted = none ∧ value = none := by
  cases drafted with
  | none => simp [eq_comm]
  | some held => simp

/-- The fields of a reference to a secret. -/
def secretRefLinks : List (Link (Option String) String) :=
  [⟨String, "name", id, fun _ name => some name, stringReader, id, SpellsString, fun _ => False⟩]

theorem secretRef_linked : Linked secretRefRecord secretRefLinks where
  fields := rfl
  nodup := by decide
  accepts := by simpa [secretRefLinks] using accepts_stringReader
  exact := by simpa [secretRefLinks] using exact_stringReader
  get_blank := by simp [secretRefLinks, secretRefRecord]
  get_put := by simp [secretRefLinks]
  get_put_of_ne := by simp [secretRefLinks]
  finish_iff := by
    rintro record (_ | name) absent
    all_goals simp [secretRefLinks, secretRefRecord, needed]

/-- The fields of a Google Cloud Logging block. -/
def googleCloudLoggingLinks : List (Link GoogleCloudLogging.Draft GoogleCloudLogging) :=
  [⟨String, "projectId", (·.projectId), ({ · with projectId := some · }), stringReader,
      (·.projectId), SpellsString, fun _ => False⟩,
    ⟨String, "logId", (·.logId), ({ · with logId := some · }), stringReader,
      (·.logId), SpellsString, fun g => g.logId = "vector-logs"⟩]

theorem googleCloudLogging_linked : Linked googleCloudLoggingRecord googleCloudLoggingLinks where
  fields := rfl
  nodup := by decide
  accepts := by
    simpa [googleCloudLoggingLinks] using accepts_stringReader
  exact := by
    simpa [googleCloudLoggingLinks] using exact_stringReader
  get_blank := by simp [googleCloudLoggingLinks, googleCloudLoggingRecord]
  get_put := by simp [googleCloudLoggingLinks]
  get_put_of_ne := by simp [googleCloudLoggingLinks]
  finish_iff := by
    rintro ⟨projectId, logId⟩ ⟨_ | projectId', _ | logId'⟩ absent
    all_goals simp [googleCloudLoggingLinks, googleCloudLoggingRecord, needed, pure, Except.pure,
      bind, Except.bind, eq_comm]

/-- The fields of an output. -/
def outputLinks : List (Link DeclaredOutput.Draft DeclaredOutput) :=
  [⟨String, "name", (·.name), ({ · with name := some · }), stringReader, (·.name), SpellsString,
      fun _ => False⟩,
    ⟨OutputType, "type", (·.type), ({ · with type := some · }), outputTypeReader, (·.type),
      SpellsChoice outputTypeNames, fun _ => False⟩,
    ⟨Option String, "url", (·.url), ({ · with url := some · }), Json.optional stringReader,
      (·.url), SpellsOption SpellsString, fun o => o.url = none⟩,
    ⟨Option String, "secret", (·.secret), ({ · with secret := some · }),
      Json.optional secretRefRecord.reader, (·.secret),
      SpellsOption (SpellsRecord secretRefTexts), fun o => o.secret = none⟩,
    ⟨Option GoogleCloudLogging, "googleCloudLogging", (·.googleCloudLogging),
      ({ · with googleCloudLogging := some · }), Json.optional googleCloudLoggingRecord.reader,
      (·.googleCloudLogging), SpellsOption (SpellsRecord googleCloudLoggingTexts),
      fun o => o.googleCloudLogging = none⟩]

theorem not_spellsRecord_null {α : Type} (fields : List (FieldTexts α)) (record : α)
    (more : List Char) : ¬ SpellsRecord fields record ('n' :: more) := by
  intro h
  generalize htext : 'n' :: more = text at h
  cases h with
  | object _ _ hcs =>
    obtain ⟨parts, -, hcs⟩ := hcs
    obtain ⟨rest, rfl⟩ := hcs.head
    cases htext
  | array _ _ hcs =>
    obtain ⟨parts, -, hcs⟩ := hcs
    obtain ⟨rest, rfl⟩ := hcs.head
    cases htext

theorem output_linked : Linked outputRecord outputLinks where
  fields := rfl
  nodup := by decide
  accepts := by
    have hurl := accepts_optional accepts_stringReader fun value more h => by
      obtain ⟨_, heq⟩ := h.head
      cases heq
    have hsecret := accepts_optional secretRef_linked.accepts_reader
      (not_spellsRecord_null secretRefTexts)
    have hblock := accepts_optional googleCloudLogging_linked.accepts_reader
      (not_spellsRecord_null googleCloudLoggingTexts)
    simpa [outputLinks] using
      ⟨accepts_stringReader, accepts_outputTypeReader, hurl, hsecret, hblock⟩
  exact := by
    have hurl := exact_optional exact_stringReader
    have hsecret := exact_optional secretRef_linked.exact_reader
    have hblock := exact_optional googleCloudLogging_linked.exact_reader
    simpa [outputLinks] using
      ⟨exact_stringReader, exact_outputTypeReader, hurl, hsecret, hblock⟩
  get_blank := by simp [outputLinks, outputRecord]
  get_put := by simp [outputLinks]
  get_put_of_ne := by simp [outputLinks]
  finish_iff := by
    rintro ⟨name, type, url, secret, block⟩ ⟨_ | name', _ | type', url', secret', block'⟩ absent
    all_goals simp [outputLinks, outputRecord, needed, ← join_eq_iff, pure, Except.pure, bind,
      Except.bind]

/-- The fields of a pipeline. -/
def pipelineLinks : List (Link DeclaredPipeline.Draft DeclaredPipeline) :=
  [⟨String, "name", (·.name), ({ · with name := some · }), stringReader, (·.name), SpellsString,
      fun p => p.name = ""⟩,
    ⟨List String, "inputRefs", (·.inputs), ({ · with inputs := some · }), stringsReader,
      (·.inputs), SpellsArray SpellsString, fun p => p.inputs = []⟩,
    ⟨List String, "outputRefs", (·.outputs), ({ · with outputs := some · }), stringsReader,
      (·.outputs), SpellsArray SpellsString, fun p => p.outputs = []⟩]

theorem pipeline_linked : Linked pipelineRecord pipelineLinks where
  fields := rfl
  nodup := by decide
  accepts := by
    simpa [pipelineLinks] using ⟨accepts_stringReader, accepts_stringsReader⟩
  exact := by
    simpa [pipelineLinks] using ⟨exact_stringReader, exact_stringsReader⟩
  get_blank := by simp [pipelineLinks, pipelineRecord]
  get_put := by simp [pipelineLinks]
  get_put_of_ne := by simp [pipelineLinks]
  finish_iff := by
    rintro ⟨name, inputs, outputs⟩ draft absent
    simp [pipelineLinks, pipelineRecord, ← getD_eq_iff]

/-- The fields of a topology. -/
def topologyLinks : List (Link Topology.Draft Topology) :=
  [⟨List DeclaredPipeline, "pipelines", (·.pipelines), ({ · with pipelines := some · }),
      Json.sequence pipelineRecord.reader, (·.pipelines), SpellsArray (SpellsRecord pipelineTexts),
      fun t => t.pipelines = []⟩,
    ⟨List DeclaredOutput, "outputs", (·.outputs), ({ · with outputs := some · }),
      Json.sequence outputRecord.reader, (·.outputs), SpellsArray (SpellsRecord outputTexts),
      fun t => t.outputs = []⟩]

theorem topology_linked : Linked topologyRecord topologyLinks where
  fields := rfl
  nodup := by decide
  accepts := by
    have hpipelines := accepts_sequence pipeline_linked.accepts_reader
    have houtputs := accepts_sequence output_linked.accepts_reader
    simpa [topologyLinks] using ⟨hpipelines, houtputs⟩
  exact := by
    have hpipelines := exact_sequence pipeline_linked.exact_reader
    have houtputs := exact_sequence output_linked.exact_reader
    simpa [topologyLinks] using ⟨hpipelines, houtputs⟩
  get_blank := by simp [topologyLinks, topologyRecord]
  get_put := by simp [topologyLinks]
  get_put_of_ne := by simp [topologyLinks]
  finish_iff := by
    rintro ⟨pipelines, outputs⟩ draft absent
    simp [topologyLinks, topologyRecord, ← getD_eq_iff]

/-! ### Whole texts -/

/-- A text with nothing but blanks around what is read is parsed. -/
theorem Json.Accepts.parse {α : Type} {read : Reader α} {spells : α → List Char → Prop}
    (h : Accepts read spells) {value : α} {text : String}
    (htext : Padded (spells value) text.toList) : read.parse text = .ok value := by
  obtain ⟨before, core, after, hbefore, hcore, hafter, heq⟩ := htext
  have hskip : skipBlanks after = [] := by
    rw [skipBlanks, ← List.append_nil after,
      List.dropWhile_append_of_pos fun c hc => isBlank_of_mem (hafter c hc)]
    rfl
  have hread := h.reads hcore hbefore after
  rw [← List.append_assoc, ← heq] at hread
  obtain ⟨hlt, hread⟩ := hread
  unfold Reader.parse
  rw [hread]
  dsimp only
  rw [hskip]

/-- A text that is parsed has nothing but blanks around what is read. -/
theorem Json.Exact.parse {α : Type} {read : Reader α} {spells : α → List Char → Prop}
    (h : Exact read spells) {value : α} {text : String} (hparse : read.parse text = .ok value) :
    Padded (spells value) text.toList := by
  unfold Reader.parse at hparse
  split at hparse
  · cases hparse
  · rename_i r hread
    split at hparse
    · rename_i hend
      cases hparse
      obtain ⟨before, core, hbefore, hcore, heq⟩ := h (.of_eq hread rfl)
      obtain ⟨after, hafter, hrest⟩ := exists_blanks r.rest
      rw [hend, List.append_nil] at hrest
      refine ⟨before, core, after, hbefore, hcore, hafter, heq.trans ?_⟩
      rw [hrest, List.append_assoc]
    · cases hparse

/-- No text spells two topologies. -/
theorem Topology.Spelled.unique {t t' : Topology} {text : String} (h : t.Spelled text)
    (h' : t'.Spelled text) : t = t' := by
  have hparse : topologyRecord.reader.parse text = .ok t := topology_linked.accepts_reader.parse h
  rw [topology_linked.accepts_reader.parse h', Except.ok.injEq] at hparse
  exact hparse.symm

/-! ### One of many texts -/

theorem Json.Padded.self {texts : List Char → Prop} {cs : List Char} (h : texts cs) :
    Padded texts cs :=
  ⟨[], cs, [], by simp [Blanks], h, by simp [Blanks], by simp⟩

theorem Json.Padded.space {texts : List Char → Prop} {cs : List Char} (h : texts cs) :
    Padded texts (' ' :: cs) :=
  ⟨[' '], cs, [], by simp [Blanks], h, by simp [Blanks], by simp⟩

/-- A string of plain characters may stand as it is. -/
theorem Json.spellsString_self {text : String} (h : ∀ c ∈ text.toList, IsPlain c) :
    SpellsString text ('"' :: (text.toList ++ ['"'])) := by
  refine ⟨text.toList.map fun c => [c], ?_, by simp [List.flatten_eq_flatMap, List.flatMap_map]⟩
  rw [List.forall₂_map_right_iff, List.forall₂_same]
  exact fun c hc => .plain (h c hc)

/-- A member with a plain key may stand as it is. -/
theorem Json.spellsMember_self {key : String} (h : ∀ c ∈ key.toList, IsPlain c)
    (value : List Char) :
    SpellsMember (key, value) ('"' :: (key.toList ++ ['"']) ++ ':' :: value) :=
  ⟨_, _, Padded.self (spellsString_self h), Padded.self rfl, rfl⟩

/-- **A text is parsed to be a topology if and only if it spells it.** -/
theorem Topology.ofJson_eq_ok_iff_spelled {t : Topology} {text : String} :
    Topology.ofJson text = .ok t ↔ t.Spelled text :=
  ⟨topology_linked.exact_reader.parse, topology_linked.accepts_reader.parse⟩

theorem Topology.ofJson_eq_ok_iff_spelled_loki :
    Topology.Spelled ⟨[], [{ name := "a/b", type := .loki }]⟩
        "\x7b\"x\":[0],\"outputs\": [[\"a\\u002fb\",\x7b\"loki\":null\x7d]]\x7d" ∧
      Topology.ofJson "\x7b\"x\":[0],\"outputs\": [[\"a\\u002fb\",\x7b\"loki\":null\x7d]]\x7d" =
        .ok ⟨[], [{ name := "a/b", type := .loki }]⟩ := by
  have hplain : ∀ text ∈ ["x", "outputs", "loki"], ∀ c ∈ text.toList, IsPlain c := by
    simp [IsPlain]
  have hname : SpellsString "a/b" "\"a\\u002fb\"".toList := by
    have hslash : HexUnit '/'.toNat ['0', '0', '2', 'f'] :=
      HexUnit.digits (i := 0) (j := 0) (k := 2) (l := 15) (.inl rfl) (.inl rfl) (.inl rfl)
        (.inl rfl)
    exact ⟨[['a'], ['\\', 'u', '0', '0', '2', 'f'], ['b']],
      .cons (.plain (by decide)) (.cons (.unit hslash) (.cons (.plain (by decide)) .nil)), rfl⟩
  have htype : SpellsChoice outputTypeNames .loki "\x7b\"loki\":null\x7d".toList := by
    have hmember : SpellsMember ("loki", "null".toList) "\"loki\":null".toList :=
      ⟨_, _, Padded.self (spellsString_self (hplain "loki" (by simp))), Padded.self rfl, rfl⟩
    exact ⟨"loki", by simp [outputTypeNames], .inr ⟨[_], .cons hmember .nil, .some⟩⟩
  have houtput : SpellsRecord outputTexts { name := "a/b", type := .loki }
      "[\"a\\u002fb\",\x7b\"loki\":null\x7d]".toList := by
    have hfields : outputTexts = outputTexts.take 2 ++ outputTexts.drop 2 := rfl
    exact .array hfields (by simp [outputTexts])
      ⟨[_, _], .cons (Padded.self hname) (.cons (Padded.self htype) .nil), .some⟩
  have houtputs : SpellsArray (SpellsRecord outputTexts) [{ name := "a/b", type := .loki }]
      "[[\"a\\u002fb\",\x7b\"loki\":null\x7d]]".toList :=
    ⟨[_], .cons (Padded.self houtput) .nil, .some⟩
  have hother : ValueText "[0]".toList := by
    have hzero : ValueText ['0'] :=
      .number ⟨[], ['0'], [], [], by simp, .zero, .none, .none, rfl⟩
    have hblanks : Blanks [] := by simp [Blanks]
    exact .array (.cons hblanks hzero hblanks .nil) .some
  have hmembers : SpellsObject [("x", "[0]".toList),
      ("outputs", "[[\"a\\u002fb\",\x7b\"loki\":null\x7d]]".toList)]
      "\x7b\"x\":[0],\"outputs\": [[\"a\\u002fb\",\x7b\"loki\":null\x7d]]\x7d".toList := by
    have hx : SpellsMember ("x", "[0]".toList) "\"x\":[0]".toList :=
      ⟨_, _, Padded.self (spellsString_self (hplain "x" (by simp))), Padded.self rfl, rfl⟩
    have hvalue : SpellsMember ("outputs", "[[\"a\\u002fb\",\x7b\"loki\":null\x7d]]".toList)
        "\"outputs\": [[\"a\\u002fb\",\x7b\"loki\":null\x7d]]".toList :=
      ⟨_, _, Padded.self (spellsString_self (hplain "outputs" (by simp))), Padded.space rfl, rfl⟩
    exact ⟨[_, _], .cons hx (.cons hvalue .nil), .some⟩
  have hspelled : Topology.Spelled ⟨[], [{ name := "a/b", type := .loki }]⟩
      "\x7b\"x\":[0],\"outputs\": [[\"a\\u002fb\",\x7b\"loki\":null\x7d]]\x7d" := by
    refine Padded.self (.object ?_ ?_ hmembers)
    · simpa [topologyTexts] using houtputs
    · simpa [topologyTexts] using hother
  exact ⟨hspelled, Topology.ofJson_eq_ok_iff_spelled.2 hspelled⟩

end LogForwarding
