/-
# What a request does

A request reads a topology, and perhaps secrets, and then works on what it has
read. Reading observes the storage and leaves it alone (`Observes`).
`Generation` and `Validation` list the ways in which the work can go, each with
its result and with the state of the storage after it, and `Run` those of the
whole program. Only the last step of one of them changes the state: the
configuration is written when nothing else can fail.

Key definitions: `Command.Observes`, `Command.Storage.Gives`,
`Command.Storage.GivesSecrets`, `Command.Generation`, `Command.Validation`,
`Command.Run`.
Key theorems: `Command.generation_runOn`, `Command.validation_runOn`,
`Command.run_program`.
-/
import LogForwarding.Proofs.Command.Storage

namespace LogForwarding.Command

variable {σ α β : Type} {d : Storage σ} {s : σ}

/-! ### Reading -/

/-- The attempt leaves the state as it is, and succeeds with the values that fulfil `P`. -/
def Observes (d : Storage σ) (s : σ) (x : Attempt α) (P : α → Prop) : Prop :=
  ∃ outcome, x.run.runOn d s = (outcome, s) ∧ ∀ a, outcome = .ok a ↔ P a

theorem Observes.bind {x : Attempt α} {f : α → Attempt β} {P : α → Prop} {Q : α → β → Prop}
    (hx : Observes d s x P) (hf : ∀ a, P a → Observes d s (f a) (Q a)) :
    Observes d s (x >>= f) fun b => ∃ a, P a ∧ Q a b := by
  obtain ⟨outcome, hrun, hP⟩ := hx
  unfold Observes
  rw [runOn_bind, hrun]
  cases outcome with
  | error failure =>
    have hnone : ∀ a, ¬ P a := fun a ha => nomatch (hP a).2 ha
    exact ⟨.error failure, rfl, fun b => by simp [hnone]⟩
  | ok a =>
    have ha : P a := (hP a).1 rfl
    have honly : ∀ a', P a' → a' = a := fun a' ha' => (Except.ok.inj ((hP a').2 ha')).symm
    obtain ⟨outcome, hrun, hQ⟩ := hf a ha
    refine ⟨outcome, hrun, fun b => ?_⟩
    rw [hQ b]
    constructor
    · exact fun hb => ⟨a, ha, hb⟩
    · rintro ⟨a', ha', hb⟩
      rwa [honly a' ha'] at hb

/-- What is known already is observed without a look at the storage. -/
theorem observes_done {x : Except Failure α} :
    Observes d s (.mk (.done x) : Attempt α) fun a => x = .ok a :=
  ⟨x, rfl, fun _ => Iff.rfl⟩

theorem observes_ofJson (context path : String) (result : Except Json.ReadFault α) :
    Observes d s (ofJson context path result) fun a => result = .ok a := by
  obtain ⟨outcome, hrun, hok⟩ := observes_done (d := d) (s := s) (x := result.mapError _)
  exact ⟨outcome, hrun, fun a => (hok a).trans mapError_eq_ok_iff⟩

theorem observes_readText (context path : String) :
    Observes d s (readText context path) fun text =>
      ∃ bytes, d.read s path = .ok bytes ∧ String.fromUTF8? bytes = some text := by
  refine ⟨_, rfl, fun text => ?_⟩
  cases hread : d.read s path with
  | error cause => simp
  | ok bytes =>
    cases htext : String.fromUTF8? bytes <;> simp [htext]

theorem runOn_ofResult (context path : String) (result : Except Fault α) :
    (ofResult context path result).run.runOn d s =
      (result.mapError fun fault => ⟨context ++ " " ++ path, some fault.message⟩, s) := rfl

theorem runOn_writeText (path text : String) :
    (writeText path text).run.runOn d s =
      match d.write s path text with
      | .ok after => (.ok (), after)
      | .error cause => (.error ⟨"write " ++ path, some cause⟩, s) := by
  show Program.runOn d s (.write path text _) = _
  rw [Program.runOn]
  cases d.write s path text with
  | ok after => rfl
  | error cause => rfl

/-- There is a text at the path, and `parse` reads a value from it. -/
def Storage.Gives (d : Storage σ) (s : σ) (path : String)
    (parse : String → Except Json.ReadFault α) (value : α) : Prop :=
  ∃ bytes text, d.read s path = .ok bytes ∧ String.fromUTF8? bytes = some text ∧
    parse text = .ok value

/-- The secrets at the path. Without a path there are none. -/
def Storage.GivesSecrets (d : Storage σ) (s : σ) : Option String → Secrets → Prop
  | none, secrets => secrets = ∅
  | some path, secrets => d.Gives s path Secrets.ofJson secrets

theorem Storage.Gives.unique {path : String} {parse : String → Except Json.ReadFault α}
    {a b : α} (ha : d.Gives s path parse a) (hb : d.Gives s path parse b) : a = b := by
  obtain ⟨bytes, text, hread, htext, hparse⟩ := ha
  obtain ⟨bytes', text', hread', htext', hparse'⟩ := hb
  rw [hread, Except.ok.injEq] at hread'
  rw [← hread', htext, Option.some.injEq] at htext'
  rw [← htext', hparse, Except.ok.injEq] at hparse'
  exact hparse'

theorem Storage.GivesSecrets.unique {path : Option String} {a b : Secrets}
    (ha : d.GivesSecrets s path a) (hb : d.GivesSecrets s path b) : a = b := by
  cases path with
  | none => exact ha.trans hb.symm
  | some path => exact Gives.unique ha hb

/-- A file that is read and parsed is observed to give what it gives. -/
theorem observes_readJson (context context' path : String)
    (parse : String → Except Json.ReadFault α) :
    Observes d s (do
      let text ← readText context path
      ofJson context' path (parse text)) (d.Gives s path parse) := by
  obtain ⟨outcome, hrun, hok⟩ := (observes_readText (d := d) (s := s) context path).bind
    fun text _ => observes_ofJson context' path (parse text)
  refine ⟨outcome, hrun, fun a => (hok a).trans ?_⟩
  constructor
  · rintro ⟨text, ⟨bytes, hread, htext⟩, hparse⟩
    exact ⟨bytes, text, hread, htext, hparse⟩
  · rintro ⟨bytes, text, hread, htext, hparse⟩
    exact ⟨text, ⟨bytes, hread, htext⟩, hparse⟩

theorem observes_readTopology (path : String) :
    Observes d s (readTopology path) (d.Gives s path Topology.ofJson) :=
  observes_readJson _ _ path Topology.ofJson

theorem observes_readSecrets (path : Option String) :
    Observes d s (readSecrets path) (d.GivesSecrets s path) := by
  cases path with
  | none =>
    refine ⟨.ok ∅, rfl, fun secrets => ?_⟩
    rw [Except.ok.injEq]
    exact eq_comm
  | some path => exact observes_readJson _ _ path Secrets.ofJson

/-! ### Requests -/

/-- What was read from the topology's file and the secrets' file. -/
def Storage.Inputs (d : Storage σ) (s : σ) (topologyPath : String) (secretsPath : Option String)
    (t : Topology) (secrets : Secrets) : Prop :=
  d.Gives s topologyPath Topology.ofJson t ∧ d.GivesSecrets s secretsPath secrets

/-- How it goes to generate a configuration, with the result and the state after it. -/
inductive Generation (d : Storage σ) (s : σ) (topologyPath : String) (secretsPath : Option String)
    (settings : Settings) : Option String → Except Failure String → σ → Prop where
  /-- There is no topology, or there are no secrets. -/
  | unread {out : Option String} {failure : Failure}
      (h : ∀ t secrets, ¬ d.Inputs s topologyPath secretsPath t secrets) :
      Generation d s topologyPath secretsPath settings out (.error failure) s
  /-- The topology has no configuration with the secrets. -/
  | refused {out : Option String} {t : Topology} {secrets : Secrets} {fault : Fault}
      (h : d.Inputs s topologyPath secretsPath t secrets)
      (hc : t.configuration secrets settings = .error fault) :
      Generation d s topologyPath secretsPath settings out
        (.error ⟨"generate configuration for " ++ topologyPath, some fault.message⟩) s
  /-- The configuration is for the standard output. -/
  | shown {t : Topology} {secrets : Secrets} {text : String}
      (h : d.Inputs s topologyPath secretsPath t secrets)
      (hc : t.configuration secrets settings = .ok text) :
      Generation d s topologyPath secretsPath settings none (.ok text) s
  /-- It cannot be written to its file. -/
  | unwritten {path cause : String} {t : Topology} {secrets : Secrets} {text : String}
      (h : d.Inputs s topologyPath secretsPath t secrets)
      (hc : t.configuration secrets settings = .ok text)
      (hw : d.write s path text = .error cause) :
      Generation d s topologyPath secretsPath settings (some path)
        (.error ⟨"write " ++ path, some cause⟩) s
  /-- It has been written to its file. -/
  | written {path : String} {t : Topology} {secrets : Secrets} {text : String} {after : σ}
      (h : d.Inputs s topologyPath secretsPath t secrets)
      (hc : t.configuration secrets settings = .ok text)
      (hw : d.write s path text = .ok after) :
      Generation d s topologyPath secretsPath settings (some path) (.ok "") after

theorem generation_runOn (d : Storage σ) (s : σ) (topologyPath : String)
    (secretsPath out : Option String) (settings : Settings) {result : Except Failure String}
    {after : σ}
    (h : (Request.generate topologyPath secretsPath out settings).program.run.runOn d s =
      (result, after)) :
    Generation d s topologyPath secretsPath settings out result after := by
  obtain ⟨topology, htopology, hgives⟩ := observes_readTopology (d := d) (s := s) topologyPath
  obtain ⟨found, hfound, hsecrets⟩ := observes_readSecrets (d := d) (s := s) secretsPath
  rw [Request.program, runOn_bind, htopology] at h
  cases topology with
  | error failure =>
    cases h
    exact .unread fun t secrets hin => nomatch (hgives t).2 hin.1
  | ok t =>
    dsimp only at h
    rw [runOn_bind, hfound] at h
    cases found with
    | error failure =>
      cases h
      exact .unread fun t secrets hin => nomatch (hsecrets secrets).2 hin.2
    | ok secrets =>
      have hin : d.Inputs s topologyPath secretsPath t secrets :=
        ⟨(hgives t).1 rfl, (hsecrets secrets).1 rfl⟩
      dsimp only at h
      rw [runOn_bind, runOn_ofResult] at h
      cases hc : t.configuration secrets settings with
      | error fault =>
        rw [hc] at h
        cases h
        exact .refused hin hc
      | ok text =>
        rw [hc] at h
        cases out with
        | none =>
          cases h
          exact .shown hin hc
        | some path =>
          dsimp only [Except.mapError] at h
          rw [runOn_bind, runOn_writeText] at h
          cases hw : d.write s path text with
          | error cause =>
            rw [hw] at h
            cases h
            exact .unwritten hin hc hw
          | ok _ =>
            rw [hw] at h
            cases h
            exact .written hin hc hw

/-- How it goes to validate a topology, with the result. -/
inductive Validation (d : Storage σ) (s : σ) (topologyPath : String) :
    Except Failure String → Prop where
  /-- There is no topology. -/
  | unread {failure : Failure} (h : ∀ t, ¬ d.Gives s topologyPath Topology.ofJson t) :
      Validation d s topologyPath (.error failure)
  /-- It has no plan. -/
  | refused {t : Topology} {fault : Fault} (h : d.Gives s topologyPath Topology.ofJson t)
      (hr : t.resolve = .error fault) :
      Validation d s topologyPath (.error ⟨"validate " ++ topologyPath, some fault.message⟩)
  /-- The pipelines of its plan are counted, and the outputs that they name. -/
  | counted {t : Topology} {plan : Plan} (h : d.Gives s topologyPath Topology.ofJson t)
      (hr : t.resolve = .ok plan) :
      Validation d s topologyPath (.ok (topologyPath ++ ": " ++ toString plan.pipelines.length ++
        " pipelines, " ++ toString plan.referenced.length ++ " outputs\n"))

theorem validation_runOn (d : Storage σ) (s : σ) (topologyPath : String) :
    ∃ result, (Request.validate topologyPath).program.run.runOn d s = (result, s) ∧
      Validation d s topologyPath result := by
  obtain ⟨topology, htopology, hgives⟩ := observes_readTopology (d := d) (s := s) topologyPath
  rw [Request.program, runOn_bind, htopology]
  cases topology with
  | error failure => exact ⟨_, rfl, .unread fun t ht => nomatch (hgives t).2 ht⟩
  | ok t =>
    have ht : d.Gives s topologyPath Topology.ofJson t := (hgives t).1 rfl
    dsimp only
    rw [runOn_bind, runOn_ofResult]
    cases hr : t.resolve with
    | error fault => exact ⟨_, rfl, .refused ht hr⟩
    | ok plan => exact ⟨_, rfl, .counted ht hr⟩

/-! ### Runs of the program -/

/-- How a run of the program goes, with its ending and the state after it, where the filters for
log messages are those that are accepted. -/
inductive Run (accepts : String → Bool) (d : Storage σ) (s : σ) (args : List String) :
    Ending → σ → Prop where
  /-- The words ask for nothing that can be done. -/
  | declined {refusal : Refusal} (h : Invocation.ofArgs args = .error refusal) :
      Run accepts d s args (.ofRefusal refusal) s
  /-- The filter for log messages is not accepted. -/
  | unfiltered {level : String} {request : Request} {failure : Failure}
      (h : Invocation.ofArgs args = .ok ⟨level, request⟩) (hl : ¬ accepts level) :
      Run accepts d s args (.ofResult (.error failure)) s
  /-- It goes as it goes to generate a configuration. -/
  | generated {level topologyPath : String} {secretsPath out : Option String} {settings : Settings}
      {result : Except Failure String} {after : σ}
      (h : Invocation.ofArgs args = .ok ⟨level, .generate topologyPath secretsPath out settings⟩)
      (hl : accepts level)
      (hresult : Generation d s topologyPath secretsPath settings out result after) :
      Run accepts d s args (.ofResult result) after
  /-- It goes as it goes to validate a topology. -/
  | validated {level topologyPath : String} {result : Except Failure String}
      (h : Invocation.ofArgs args = .ok ⟨level, .validate topologyPath⟩) (hl : accepts level)
      (hresult : Validation d s topologyPath result) :
      Run accepts d s args (.ofResult result) s

/-- A program that is asked for something ends as what it does for it. -/
theorem runOn_program {accepts : String → Bool} {args : List String} {invocation : Invocation}
    (h : Invocation.ofArgs args = .ok invocation) :
    (program accepts args).runOn d s =
      (.ofResult ((invocation.program accepts).run.runOn d s).1,
        ((invocation.program accepts).run.runOn d s).2) := by
  rw [program, h]
  show ((invocation.program accepts).run.andThen _).runOn d s = _
  rw [runOn_andThen]
  rfl

theorem run_program (accepts : String → Bool) (d : Storage σ) (s : σ) (args : List String) :
    Run accepts d s args ((program accepts args).runOn d s).1
      ((program accepts args).runOn d s).2 := by
  cases h : Invocation.ofArgs args with
  | error refusal =>
    rw [program, h]
    exact .declined h
  | ok invocation =>
    obtain ⟨level, request⟩ := invocation
    rw [runOn_program h]
    by_cases hl : accepts level
    · have hprogram : Invocation.program accepts ⟨level, request⟩ = request.program := if_pos hl
      rw [hprogram]
      cases request with
      | generate topologyPath secretsPath out settings =>
        exact .generated h hl (generation_runOn d s topologyPath secretsPath out settings rfl)
      | validate topologyPath =>
        obtain ⟨result, hrun, hresult⟩ := validation_runOn d s topologyPath
        rw [hrun]
        exact .validated h hl hresult
    · have hprogram : Invocation.program accepts ⟨level, request⟩ =
          throw ⟨"bad log level " ++ Text.quoted level, none⟩ := if_neg hl
      rw [hprogram]
      exact .unfiltered h hl

end LogForwarding.Command
