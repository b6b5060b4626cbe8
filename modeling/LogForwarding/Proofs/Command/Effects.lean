/-
# What a run leaves behind

A run has one way to change a file, and takes it when nothing else can fail. So
a run that fails has changed nothing and has shown nothing, and a run that goes
well has left the whole configuration either on the standard output or in the
file that it was told to write, also if that is one of the files it has read.
The configuration is that of the settings which the options of the command line
make, whatever is accepted as a filter for log messages.

Key definitions: `Command.Spoiled`, `Command.Effects`.
Key theorems: `Command.program_effects`.
-/
import Mathlib
import LogForwarding.Proofs.Command.CommandLine
import LogForwarding.Proofs.Command.Folder
import LogForwarding.Proofs.Command.Requests
import LogForwarding.Proofs.Configuration

namespace LogForwarding.Command

variable {σ : Type} {accepts : String → Bool} {d : Storage σ} {s : σ}

/-- What keeps a configuration from being made: the filter for log messages is not accepted, the
topology or the secrets cannot be read or parsed, or the topology has no configuration. -/
inductive Spoiled (accepts : String → Bool) (d : Storage σ) (s : σ) (level topologyPath : String)
    (secretsPath : Option String) (settings : Settings) : Prop where
  /-- The filter is not accepted. -/
  | filter (h : ¬ accepts level)
  /-- The topology is not read or not parsed. -/
  | topology (h : ∀ t, ¬ d.Gives s topologyPath Topology.ofJson t)
  /-- The secrets are not read or not parsed. -/
  | secrets (h : ∀ secrets, ¬ d.GivesSecrets s secretsPath secrets)
  /-- There is no configuration. -/
  | fault {t : Topology} {secrets : Secrets} {fault : Fault}
      (h : d.Inputs s topologyPath secretsPath t secrets)
      (hc : t.configuration secrets settings = .error fault)

/-- The effects of a run that began with the files of `s` and the words `args`: its ending and the
files after it. -/
structure Effects (accepts : String → Bool) (d : Storage σ) (s : σ) (args : List String)
    (ending : Ending) (after : σ) : Prop where
  /-- A run that fails shows nothing and changes nothing. -/
  failed : ending.code ≠ 0 → ending.output = "" ∧ after = s
  /-- A configuration that goes to a file is the whole of it, and no other file changes. -/
  written : ∀ level topologyPath secretsPath path settings,
    Asks args ⟨level, .generate topologyPath secretsPath (some path) settings⟩ →
    ending.code = 0 → d.ReplacesAt s path →
    ending.output = "" ∧
      ∃ t secrets text, d.Inputs s topologyPath secretsPath t secrets ∧
        t.configuration secrets settings = .ok text ∧
        d.read after path = .ok text.toUTF8 ∧
        ∃ file, d.content after file = some text.toUTF8 ∧
          ∀ other, other ≠ file → d.content after other = d.content s other
  /-- A configuration that goes to no file is the standard output, and no file changes. -/
  shown : ∀ level topologyPath secretsPath settings,
    Asks args ⟨level, .generate topologyPath secretsPath none settings⟩ →
    ending.code = 0 →
    after = s ∧
      ∃ t secrets, d.Inputs s topologyPath secretsPath t secrets ∧
        t.configuration secrets settings = .ok ending.output
  /-- To validate a topology changes no file. -/
  validated : ∀ level topologyPath,
    Asks args ⟨level, .validate topologyPath⟩ → after = s
  /-- What keeps a configuration from being made leaves the file alone that it was meant for. -/
  spoiled : ∀ level topologyPath secretsPath out settings,
    Asks args ⟨level, .generate topologyPath secretsPath out settings⟩ →
    Spoiled accepts d s level topologyPath secretsPath settings →
    ending.code = 1 ∧ ending.output = "" ∧ after = s

theorem Ending.code_ofResult_error (failure : Failure) : (ofResult (.error failure)).code ≠ 0 := by
  show (1 : UInt32) ≠ 0
  decide

section

variable {args : List String} {ending : Ending} {after : σ}

theorem Run.failed (run : Run accepts d s args ending after) (hcode : ending.code ≠ 0) :
    ending.output = "" ∧ after = s := by
  cases run with
  | @declined refusal h =>
    cases refusal with
    | help => exact absurd rfl hcode
    | usage => exact ⟨rfl, rfl⟩
  | unfiltered h hl => exact ⟨rfl, rfl⟩
  | generated h hl hresult =>
    cases hresult with
    | unread | refused | unwritten => exact ⟨rfl, rfl⟩
    | shown | written => exact absurd rfl hcode
  | validated h hl hresult =>
    cases hresult with
    | unread | refused => exact ⟨rfl, rfl⟩
    | counted => exact absurd rfl hcode

/-- A run that was asked for a configuration goes as it goes to generate one, unless the filter
for log messages is not accepted. -/
theorem Run.generation {level topologyPath : String} {secretsPath out : Option String}
    {settings : Settings} (run : Run accepts d s args ending after)
    (h : Invocation.ofArgs args = .ok ⟨level, .generate topologyPath secretsPath out settings⟩) :
    (¬ accepts level ∧ ending.code = 1 ∧ after = s) ∨
      accepts level ∧ ∃ result, ending = .ofResult result ∧
        Generation d s topologyPath secretsPath settings out result after := by
  cases run with
  | declined h' => cases h.symm.trans h'
  | unfiltered h' hl =>
    cases h.symm.trans h'
    exact .inl ⟨hl, rfl, rfl⟩
  | generated h' hl hresult =>
    cases h.symm.trans h'
    exact .inr ⟨hl, _, rfl, hresult⟩
  | validated h' => cases h.symm.trans h'

theorem Run.validation {level topologyPath : String} (run : Run accepts d s args ending after)
    (h : Invocation.ofArgs args = .ok ⟨level, .validate topologyPath⟩) :
    after = s ∧
      ((¬ accepts level ∧ ending.code = 1) ∨
        accepts level ∧ ∃ result, ending = .ofResult result ∧
          Validation d s topologyPath result) := by
  cases run with
  | declined h' => cases h.symm.trans h'
  | unfiltered h' hl =>
    cases h.symm.trans h'
    exact ⟨rfl, .inl ⟨hl, rfl⟩⟩
  | generated h' => cases h.symm.trans h'
  | validated h' hl hresult =>
    cases h.symm.trans h'
    exact ⟨rfl, .inr ⟨hl, _, rfl, hresult⟩⟩

/-- What keeps a configuration from being made makes the run fail. -/
theorem Run.code_of_spoiled {level topologyPath : String} {secretsPath out : Option String}
    {settings : Settings} (run : Run accepts d s args ending after)
    (h : Invocation.ofArgs args = .ok ⟨level, .generate topologyPath secretsPath out settings⟩)
    (hspoiled : Spoiled accepts d s level topologyPath secretsPath settings) : ending.code = 1 := by
  obtain ⟨-, hcode, -⟩ | ⟨hl, result, rfl, hresult⟩ := run.generation h
  · exact hcode
  · have hnone : ∀ t secrets text, d.Inputs s topologyPath secretsPath t secrets →
        t.configuration secrets settings ≠ .ok text := by
      intro t secrets text hin hc
      cases hspoiled with
      | filter hfilter => exact hfilter hl
      | topology htopology => exact htopology t hin.1
      | secrets hsecrets => exact hsecrets secrets hin.2
      | fault hin' hc' =>
        have ht := hin.1.unique hin'.1
        have hsecrets := hin.2.unique hin'.2
        rw [ht, hsecrets, hc'] at hc
        cases hc
    cases hresult with
    | unread | refused | unwritten => rfl
    | shown hin hc => exact absurd hc (hnone _ _ _ hin)
    | written hin hc => exact absurd hc (hnone _ _ _ hin)

theorem Run.written {level topologyPath path : String} {secretsPath : Option String}
    {settings : Settings} (run : Run accepts d s args ending after)
    (h : Invocation.ofArgs args =
      .ok ⟨level, .generate topologyPath secretsPath (some path) settings⟩)
    (hcode : ending.code = 0) :
    ending.output = "" ∧
      ∃ t secrets text, d.Inputs s topologyPath secretsPath t secrets ∧
        t.configuration secrets settings = .ok text ∧ d.write s path text = .ok after := by
  obtain ⟨-, hcode', -⟩ | ⟨-, result, rfl, hresult⟩ := run.generation h
  · exact absurd (hcode.symm.trans hcode') (by decide)
  · cases hresult with
    | unread | refused | unwritten => exact absurd hcode (Ending.code_ofResult_error _)
    | written hin hc hw => exact ⟨rfl, _, _, _, hin, hc, hw⟩

theorem Run.shown {level topologyPath : String} {secretsPath : Option String}
    {settings : Settings} (run : Run accepts d s args ending after)
    (h : Invocation.ofArgs args = .ok ⟨level, .generate topologyPath secretsPath none settings⟩)
    (hcode : ending.code = 0) :
    after = s ∧
      ∃ t secrets, d.Inputs s topologyPath secretsPath t secrets ∧
        t.configuration secrets settings = .ok ending.output := by
  obtain ⟨-, hcode', -⟩ | ⟨-, result, rfl, hresult⟩ := run.generation h
  · exact absurd (hcode.symm.trans hcode') (by decide)
  · cases hresult with
    | unread | refused => exact absurd hcode (Ending.code_ofResult_error _)
    | shown hin hc => exact ⟨rfl, _, _, hin, hc⟩

/-- A configuration that is there and that can be written is written. -/
theorem Run.eq_written {level topologyPath path text : String} {secretsPath : Option String}
    {settings : Settings} {t : Topology} {secrets : Secrets} {written : σ}
    (run : Run accepts d s args ending after)
    (h : Invocation.ofArgs args =
      .ok ⟨level, .generate topologyPath secretsPath (some path) settings⟩)
    (hl : accepts level) (hin : d.Inputs s topologyPath secretsPath t secrets)
    (hc : t.configuration secrets settings = .ok text) (hw : d.write s path text = .ok written) :
    ending.code = 0 ∧ ending.output = "" ∧ after = written := by
  obtain ⟨hl', -⟩ | ⟨-, result, rfl, hresult⟩ := run.generation h
  · exact absurd hl hl'
  · cases hresult with
    | unread hnone => exact absurd hin (hnone t secrets)
    | refused hin' hc' =>
      rw [hin.1.unique hin'.1, hin.2.unique hin'.2, hc'] at hc
      cases hc
    | unwritten hin' hc' hw' =>
      rw [hin.1.unique hin'.1, hin.2.unique hin'.2, hc', Except.ok.injEq] at hc
      rw [← hc, hw'] at hw
      cases hw
    | written hin' hc' hw' =>
      rw [hin.1.unique hin'.1, hin.2.unique hin'.2, hc', Except.ok.injEq] at hc
      rw [← hc, hw', Except.ok.injEq] at hw
      exact ⟨rfl, rfl, hw⟩

end

/-- **A run changes a file only as its last step, and then it has gone well.** If it fails, there
is nothing on the standard output and every file is as it was. -/
theorem program_effects (accepts : String → Bool) (d : Storage σ) (s : σ) (args : List String) :
    Effects accepts d s args ((program accepts args).runOn d s).1
      ((program accepts args).runOn d s).2 := by
  have run := run_program accepts d s args
  constructor
  case failed => exact run.failed
  case written =>
    intro level topologyPath secretsPath path settings h hcode hreplaces
    obtain ⟨houtput, t, secrets, text, hin, hc, hw⟩ := run.written (asks_iff.1 h) hcode
    obtain ⟨hread, file, hfile, hothers⟩ := hreplaces text _ hw
    exact ⟨houtput, t, secrets, text, hin, hc, hread, file, hfile, hothers⟩
  case shown =>
    intro level topologyPath secretsPath settings h hcode
    exact run.shown (asks_iff.1 h) hcode
  case validated =>
    intro level topologyPath h
    exact (run.validation (asks_iff.1 h)).1
  case spoiled =>
    intro level topologyPath secretsPath out settings h hspoiled
    have hcode : _ = (1 : UInt32) := run.code_of_spoiled (asks_iff.1 h) hspoiled
    have hne : ((program accepts args).runOn d s).1.code ≠ 0 := by
      rw [hcode]
      decide
    exact ⟨hcode, run.failed hne⟩

/-- A topology that forwards audit logs to a server that asks for a password. -/
def auditing : Topology where
  pipelines := [{ name := "p", inputs := ["audit"], outputs := ["web"] }]
  outputs := [{ name := "web", type := .http, url := some "u", secret := some "key" }]

/-- The topology as it can be written down. -/
def auditingJson : String :=
  "[[[\"p\",[\"audit\"],[\"web\"]]],[[\"web\",\"http\",\"u\",[\"key\"]]]]"

/-- Its plan. -/
def auditingPlan : Plan where
  pipelines := [⟨"p", "p", [.audit], ["web"]⟩]
  outputs := (∅ : Outputs).insert "web" ⟨"web", "web", .http, some "u", some "key", none⟩

/-- The secret that the server asks for. -/
def auditingSecrets : Secrets :=
  (∅ : Secrets).insert "key" ((∅ : Secret)
    |>.insert SecretKey.username "ann".toUTF8
    |>.insert SecretKey.password "pass".toUTF8)

/-- The secrets as they can be written down. -/
def auditingSecretsJson : String :=
  "\x7b\"key\":\x7b\"username\":\"ann\",\"password\":\"pass\"\x7d\x7d"

/-- A folder with the topology in the file `t` and the secrets in the file `s`. -/
def auditingFolder : Folder :=
  (∅ : Folder).insert "t" auditingJson.toUTF8 |>.insert "s" auditingSecretsJson.toUTF8

/-- The names of levels are filters for log messages. -/
def isLevelName (text : String) : Bool :=
  ["off", "error", "warn", "info", "debug", "trace"].contains text

theorem spelled_name {name : String} (h : name = "t" ∨ name = "s") :
    Folder.spelled name = .ok ⟨Location.working, [name], false⟩ := by
  have hsplit : name.splitOn "/" = [name] := by
    rcases h with rfl | rfl <;> cbv
  have hpath : Path.ofString name = ⟨Location.working, [name], false⟩ := by
    rw [Path.ofString, hsplit]
    rcases h with rfl | rfl <;> cbv
  rw [Folder.spelled, hpath]
  rcases h with rfl | rfl <;> rfl

theorem follow_name {name : String} (h : name = "t" ∨ name = "s") :
    auditingFolder.follow Location.working [name] = .ok [name] := by
  rcases h with rfl | rfl <;> rfl

theorem leadsTo_name {name : String} (h : name = "t" ∨ name = "s") :
    auditingFolder.LeadsTo name [name] where
  way := ⟨_, spelled_name h, rfl, follow_name h⟩
  noFolder := by rcases h with rfl | rfl <;> rfl
  noDevice := by rcases h with rfl | rfl <;> rfl

theorem plain_t : auditingFolder.Plain "t" := by
  intro p location hp hfollow
  rw [spelled_name (.inl rfl), Except.ok.injEq] at hp
  rw [← hp, follow_name (.inl rfl), Except.ok.injEq] at hfollow
  rw [← hfollow]
  exact (leadsTo_name (.inl rfl)).noDevice

theorem read_t : Folder.storage.read auditingFolder "t" = .ok auditingJson.toUTF8 :=
  mapError_eq_ok_iff.2 ((leadsTo_name (.inl rfl)).read_eq rfl)

theorem read_s : Folder.storage.read auditingFolder "s" = .ok auditingSecretsJson.toUTF8 :=
  mapError_eq_ok_iff.2 ((leadsTo_name (.inr rfl)).read_eq rfl)

theorem write_t (text : String) :
    Folder.storage.write auditingFolder "t" text =
      .ok (Std.ExtTreeMap.insert auditingFolder (Location.text ["t"]) text.toUTF8) := by
  have hprocess : (Location.text ["t"]).startsWith "/proc/" = false := rfl
  exact mapError_eq_ok_iff.2 ((leadsTo_name (.inl rfl)).write_eq hprocess)

theorem inputs_auditing :
    Folder.storage.Inputs auditingFolder "t" (some "s") auditing auditingSecrets := by
  refine ⟨⟨auditingJson.toUTF8, auditingJson, read_t, ?_, ?_⟩,
    auditingSecretsJson.toUTF8, auditingSecretsJson, read_s, ?_, ?_⟩
  · rfl
  · decide +kernel
  · rfl
  · with_unfolding_all rfl

theorem resolve_auditing : auditing.resolve = .ok auditingPlan := rfl

theorem exists_configuration_auditing (settings : Settings) :
    ∃ text, auditing.configuration auditingSecrets settings = .ok text := by
  obtain ⟨roots, hroots, -⟩ :
      ∃ roots, auditingPlan.sinks auditingSecrets settings = .ok roots ∧ roots.length = 1 :=
    map_eq_ok_iff.1 rfl
  exact Topology.exists_configuration resolve_auditing hroots

/-- Words that ask for a configuration with all settings changed, in the file of its topology. -/
def overwriting : List String :=
  ["--log-level=info", "generate", "--topology", "t", "--secrets=s", "--inline-secrets",
    "--secrets-dir", "dir", "--audit-ignore-older-secs", "+007", "-ot"]

theorem asks_overwriting :
    Asks overwriting ⟨"info", .generate "t" (some "s") (some "t") ⟨.inline, "dir", 7⟩⟩ := by
  rw [asks_iff]
  decide +kernel

/-- A topology that is read from a file can be overwritten by its own configuration. -/
theorem program_effects_overwriting :
    Asks overwriting ⟨"info", .generate "t" (some "s") (some "t") ⟨.inline, "dir", 7⟩⟩ ∧
      ∃ text ending after,
        auditing.configuration auditingSecrets ⟨.inline, "dir", 7⟩ = .ok text ∧
        (program isLevelName overwriting).runOn Folder.storage auditingFolder = (ending, after) ∧
        ending.code = 0 ∧ ending.output = "" ∧
        Folder.storage.read auditingFolder "t" = .ok auditingJson.toUTF8 ∧
        Folder.storage.read after "t" = .ok text.toUTF8 := by
  obtain ⟨text, htext⟩ := exists_configuration_auditing ⟨.inline, "dir", 7⟩
  have run := run_program isLevelName Folder.storage auditingFolder overwriting
  have effects := program_effects isLevelName Folder.storage auditingFolder overwriting
  -- The folder after the run is large to look at, and only what is known of it is needed.
  generalize (program _ _).runOn Folder.storage auditingFolder = outcome at run effects ⊢
  obtain ⟨ending, after⟩ := outcome
  obtain ⟨hcode, -, -⟩ := run.eq_written (asks_iff.1 asks_overwriting)
    rfl inputs_auditing htext (write_t text)
  obtain ⟨houtput, t, secrets, text', hin, hc, hread, -⟩ := effects.written "info" "t" (some "s")
    "t" _ asks_overwriting hcode (Folder.replacesAt plain_t)
  rw [hin.1.unique inputs_auditing.1, hin.2.unique inputs_auditing.2, htext,
    Except.ok.injEq] at hc
  rw [← hc] at hread
  exact ⟨asks_overwriting, text, ending, after, htext, rfl, hcode, houtput, read_t, hread⟩

end LogForwarding.Command
