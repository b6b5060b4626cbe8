/-
# Every fault of resolution names a defect

Resolution stops at the first problem that it finds. What it reports is there:
the fault names declarations of the topology, pipelines by the names that they
have from their positions at the latest, and what it says of them can be seen
in the declarations alone (`Topology.Defect`). It is never about secret
material, and never about elements.

A bad declaration is met before those after it are looked at. Outputs after a
bad one, and all pipelines, can be changed without changing the fault; so can
pipelines after a bad one.

Key definitions: `Component`, `Topology.components`, `DeclaredOutput.Defect`,
`DeclaredPipeline.Defect`, `Topology.Defect`, `Fault.blamed`.
Key theorems: `addOutput_eq_error`, `addPipeline_eq_error`,
`checkIds_eq_error`, `checkEnvironmentIds_eq_error`,
`Topology.resolve_eq_error_iff`, `Topology.defect_of_resolve`.
-/
import LogForwarding.Proofs.Resolution.WrittenBack

namespace LogForwarding

/-! ### Components -/

/-- What has a component id. -/
inductive Component where
  /-- A component that every configuration keeps an id for. -/
  | builtin (id : String)
  /-- A pipeline. -/
  | pipeline (name : String)
  /-- An output. -/
  | output (name : String)
  deriving DecidableEq, Repr

namespace Component

/-- The component id. -/
def id : Component → String
  | builtin id => id
  | pipeline name | output name => componentId name

/-- The description in a fault. -/
def description : Component → String
  | builtin id => "built-in " ++ id
  | pipeline name => "pipeline " ++ name
  | output name => "output " ++ name

end Component

namespace Topology

/-- The pipelines by their names, and the outputs, with the log store if some pipeline names it. -/
def ownComponents (t : Topology) : List Component :=
  t.pipelineNames.map .pipeline ++ t.allOutputs.map (.output ·.name)

/-- Everything that has a component id. -/
def components (t : Topology) : List Component := builtinIds.map .builtin ++ t.ownComponents

/-- The secrets that outputs name. -/
def usedSecrets (t : Topology) : List String := t.allOutputs.filterMap Output.secret

end Topology

/-! ### Defects -/

/-- What is wrong with the declaration of an output, as faults tell it. -/
inductive DeclaredOutput.Defect (o : DeclaredOutput) : Fault → Prop where
  /-- It takes the name of the log store. -/
  | reserved (h : o.name = defaultOutputName) : Defect o (.reservedOutputName o.name)
  /-- Its type asks for a url, and there is none or one of blanks. -/
  | missingUrl (htype : o.type.needsUrl)
      (hurl : ∀ url, o.url = some url → ∀ c ∈ url.toList, Text.isBlank c) :
    Defect o (.missingUrl o.name)
  /-- Its type asks for a place in Google Cloud Logging, and there is none. -/
  | missingGoogleCloudLogging (htype : o.type = .googleCloudLogging)
      (hblock : o.googleCloudLogging = none) :
    Defect o (.missingGoogleCloudLogging o.name)

/-- What is wrong with the references of a pipeline called `name`, where the outputs `outputs` are
declared. -/
inductive DeclaredPipeline.Defect (p : DeclaredPipeline) (outputs : List String) (name : String) :
    Fault → Prop where
  /-- It has no input. -/
  | noInput (h : p.inputs = []) : Defect p outputs name (.emptyPipeline name "input")
  /-- It has no output. -/
  | noOutput (h : p.outputs = []) : Defect p outputs name (.emptyPipeline name "output")
  /-- It refers to an input that does not exist. -/
  | unknownInput {input : String} (href : input ∈ p.inputs)
      (hnone : ∀ known : Input, known.name ≠ input) :
    Defect p outputs name (.unknownInput name input)
  /-- It refers to an output that is neither declared nor the log store. -/
  | unknownOutput {output : String} (href : output ∈ p.outputs)
      (hstore : output ≠ defaultOutputName) (hnone : output ∉ outputs) :
    Defect p outputs name (.unknownOutput name output)

/-- What is wrong with a topology. -/
inductive Topology.Defect (t : Topology) : Fault → Prop where
  /-- An output is declared badly. -/
  | output {o : DeclaredOutput} {fault : Fault} (ho : o ∈ t.outputs) (h : o.Defect fault) :
    Defect t fault
  /-- Two outputs have one name. -/
  | duplicateOutput {i j : Nat} {name : String} (hij : i < j)
      (hi : (t.outputs.map DeclaredOutput.name)[i]? = some name)
      (hj : (t.outputs.map DeclaredOutput.name)[j]? = some name) :
    Defect t (.duplicateOutput name)
  /-- The references of a pipeline are bad; the fault has the name that it has at its position. -/
  | pipeline {position : Nat} {p : DeclaredPipeline} {fault : Fault}
      (hp : t.pipelines[position]? = some p)
      (h : p.Defect (t.outputs.map DeclaredOutput.name) (p.effectiveName position) fault) :
    Defect t fault
  /-- Two pipelines have one name. -/
  | duplicatePipeline {i j : Nat} {name : String} (hij : i < j)
      (hi : t.pipelineNames[i]? = some name) (hj : t.pipelineNames[j]? = some name) :
    Defect t (.duplicatePipeline name)
  /-- Two components have one id. -/
  | componentIdConflict {first second : Component} (hfirst : first ∈ t.components)
      (hsecond : second ∈ t.components) (hne : first ≠ second) (hid : first.id = second.id) :
    Defect t (.componentIdConflict second.id first.description second.description)
  /-- Two secrets have one environment id. -/
  | secretEnvConflict {first second : String} (hfirst : first ∈ t.usedSecrets)
      (hsecond : second ∈ t.usedSecrets) (hne : first ≠ second)
      (henv : environmentId first = environmentId second) :
    Defect t (.secretEnvConflict (environmentId second) first second)

/-- The component whose declaration the fault tells of, where it tells of one. -/
def Fault.blamed : Fault → Option Component
  | duplicateOutput name | reservedOutputName name | missingUrl name
  | missingGoogleCloudLogging name => some (.output name)
  | unknownInput name _ | unknownOutput name _ | duplicatePipeline name
  | emptyPipeline name _ => some (.pipeline name)
  | _ => none

theorem DeclaredOutput.Defect.blamed_eq {o : DeclaredOutput} {fault : Fault}
    (h : o.Defect fault) : fault.blamed = some (.output o.name) := by
  cases h <;> rfl

theorem DeclaredPipeline.Defect.blamed_eq {p : DeclaredPipeline} {outputs : List String}
    {name : String} {fault : Fault} (h : p.Defect outputs name fault) :
    fault.blamed = some (.pipeline name) := by
  cases h <;> rfl

/-- What is wrong with a topology is never secret material, nor an element. -/
theorem Topology.Defect.kind_eq {t : Topology} {fault : Fault} (h : t.Defect fault) :
    fault.kind = .reference ∨ fault.kind = .invalid := by
  cases h with
  | output _ h => cases h <;> exact .inr rfl
  | pipeline _ h =>
    cases h with
    | noInput | noOutput => exact .inr rfl
    | unknownInput | unknownOutput => exact .inl rfl
  | duplicateOutput | duplicatePipeline | componentIdConflict | secretEnvConflict => exact .inr rfl

/-! ### Bad outputs -/

theorem addOutput_eq_error {known : Outputs} {o : DeclaredOutput} {fault : Fault}
    (h : addOutput known o = .error fault) :
    o.Defect fault ∨ o.name ∈ known ∧ fault = .duplicateOutput o.name := by
  unfold addOutput at h
  split_ifs at h with hreserved hknown hurl hblock
  · cases h
    exact .inl (.reserved hreserved)
  · cases h
    exact .inr ⟨hknown, rfl⟩
  · cases h
    obtain ⟨htype, hurl⟩ := hurl
    refine .inl (.missingUrl htype fun url heq c hc => ?_)
    by_contra hblank
    apply hurl
    exact DeclaredOutput.hasUrl_iff.2 ⟨url, heq, c, hc, by simpa using hblank⟩
  · cases h
    obtain ⟨htype, hblock⟩ := hblock
    rw [Bool.not_eq_true, OutputType.needsUrl_eq_false_iff] at htype
    exact .inl (.missingGoogleCloudLogging htype (Option.isNone_iff_eq_none.1 hblock))

/-- A member that is met a second time stands at two positions. -/
theorem exists_positions {α : Type} {before : List α} {a : α} (h : a ∈ before) (after : List α) :
    ∃ i j : Nat, i < j ∧ (before ++ a :: after)[i]? = some a ∧
      (before ++ a :: after)[j]? = some a := by
  obtain ⟨i, hi⟩ := List.mem_iff_getElem?.1 h
  have hlt : i < before.length := (List.getElem?_eq_some_iff.1 hi).1
  refine ⟨i, before.length, hlt, ?_, ?_⟩
  · rw [List.getElem?_append_left hlt]
    exact hi
  · rw [List.getElem?_append_right (Nat.le_refl _), Nat.sub_self, List.getElem?_cons_zero]

/-- The phase of the outputs fails at a bad declaration, whatever comes after it. -/
theorem Topology.exists_bad_output {t : Topology} {fault : Fault}
    (h : t.outputs.foldlM addOutput ∅ = .error fault) :
    t.Defect fault ∧ ∃ before o after, t.outputs = before ++ o :: after ∧
      fault.blamed = some (.output o.name) ∧
      ∀ after', (before ++ o :: after').foldlM addOutput ∅ = .error fault := by
  obtain ⟨before, o, after, known, houtputs, hbefore, ho⟩ := foldlM_eq_error_iff.1 h
  have hlocal : ∀ after', (before ++ o :: after').foldlM addOutput ∅ = .error fault :=
    fun after' => foldlM_eq_error_iff.2 ⟨before, o, after', known, rfl, hbefore, ho⟩
  rcases addOutput_eq_error ho with hdefect | ⟨hknown, rfl⟩
  · refine ⟨.output ?_ hdefect, before, o, after, houtputs, hdefect.blamed_eq, hlocal⟩
    rw [houtputs]
    exact List.mem_append_right _ List.mem_cons_self
  · refine ⟨?_, before, o, after, houtputs, rfl, hlocal⟩
    have hholds : known.Holds (before.map DeclaredOutput.toOutput) :=
      .of_foldlM_addOutput .empty hbefore
    have hmem : o.name ∈ before.map DeclaredOutput.name := by
      rw [hholds.mem_iff, List.map_map] at hknown
      exact hknown
    have hnames : t.outputs.map DeclaredOutput.name =
        before.map DeclaredOutput.name ++ o.name :: after.map DeclaredOutput.name := by
      rw [houtputs, List.map_append, List.map_cons]
    obtain ⟨i, j, hij, hi, hj⟩ := exists_positions hmem (after.map DeclaredOutput.name)
    exact .duplicateOutput hij (hnames ▸ hi) (hnames ▸ hj)

/-! ### Bad pipelines -/

theorem DeclaredPipeline.resolve_eq_error {known : Outputs} {outputs : List String} {name : String}
    {p : DeclaredPipeline} {fault : Fault} (hk : ∀ name, name ∈ known ↔ name ∈ outputs)
    (h : p.resolve known name = .error fault) : p.Defect outputs name fault := by
  unfold resolve at h
  by_cases hi : p.inputs = []
  · rw [if_pos hi] at h
    cases h
    exact .noInput hi
  by_cases ho : p.outputs = []
  · rw [if_neg hi, if_pos ho] at h
    cases h
    exact .noOutput ho
  rw [if_neg hi, if_neg ho] at h
  rcases bind_eq_error_iff.1 h with hinputs | ⟨inputs, _, h⟩
  · obtain ⟨before, input, after, hsplit, _, hinput⟩ := mapM_eq_error_iff.1 hinputs
    have href : input ∈ p.inputs := hsplit ▸ by simp
    unfold resolveInput at hinput
    split at hinput
    · cases hinput
    · rename_i hnone
      cases hinput
      refine .unknownInput href fun i heq => ?_
      rw [Input.ofName?_eq_some_iff.2 heq] at hnone
      cases hnone
  · rcases bind_eq_error_iff.1 h with houtputs | ⟨_, _, h⟩
    · obtain ⟨before, output, after, hsplit, _, houtput⟩ := mapM_eq_error_iff.1 houtputs
      have href : output ∈ p.outputs := hsplit ▸ by simp
      unfold resolveOutput at houtput
      split_ifs at houtput with hfound
      cases houtput
      rw [not_or, hk] at hfound
      exact .unknownOutput href hfound.1 hfound.2
    · cases h

theorem addPipeline_eq_error {known : Outputs} {outputs : List String} {before : List Pipeline}
    {p : DeclaredPipeline} {fault : Fault} (hk : ∀ name, name ∈ known ↔ name ∈ outputs)
    (h : addPipeline known before p = .error fault) :
    p.Defect outputs (p.effectiveName before.length) fault ∨
      p.effectiveName before.length ∈ before.map Pipeline.name ∧
        fault = .duplicatePipeline (p.effectiveName before.length) := by
  unfold addPipeline at h
  dsimp only at h
  split_ifs at h with htaken
  · cases h
    obtain ⟨q, hq, hname⟩ := List.any_eq_true.1 htaken
    exact .inr ⟨List.mem_map.2 ⟨q, hq, by simpa using hname⟩, rfl⟩
  · exact .inl (DeclaredPipeline.resolve_eq_error hk (map_eq_error_iff.1 h))

theorem effectiveNames_append (before : List DeclaredPipeline) (p : DeclaredPipeline)
    (after : List DeclaredPipeline) :
    effectiveNames (before ++ p :: after) 0 =
      effectiveNames before 0 ++
        p.effectiveName before.length :: effectiveNames after (before.length + 1) := by
  simp [effectiveNames, List.zipIdx_append]

/-- The phase of the pipelines fails at a bad declaration, whatever comes after it. -/
theorem Topology.exists_bad_pipeline {t : Topology} {known : Outputs} {fault : Fault}
    (hk : ∀ name, name ∈ known ↔ name ∈ t.outputs.map DeclaredOutput.name)
    (h : t.pipelines.foldlM (addPipeline known) [] = .error fault) :
    t.Defect fault ∧ ∃ before p after, t.pipelines = before ++ p :: after ∧
      fault.blamed = some (.pipeline (p.effectiveName before.length)) ∧
      ∀ after', (before ++ p :: after').foldlM (addPipeline known) [] = .error fault := by
  obtain ⟨before, p, after, qs, hpipelines, hbefore, hp⟩ := foldlM_eq_error_iff.1 h
  have hlocal : ∀ after', (before ++ p :: after').foldlM (addPipeline known) [] = .error fault :=
    fun after' => foldlM_eq_error_iff.2 ⟨before, p, after', qs, rfl, hbefore, hp⟩
  obtain ⟨_, rfl, hall⟩ := resolveAll_of_foldlM_addPipeline hbefore
  -- So far every pipeline was accepted, so positions are counted by what was accepted.
  have hlength : qs.length = before.length := by
    have hlengths := congrArg List.length hall.map_name
    simpa [effectiveNames] using hlengths
  have hbad := addPipeline_eq_error hk hp
  rw [hlength] at hbad
  rcases hbad with hdefect | ⟨htaken, rfl⟩
  · refine ⟨.pipeline ?_ hdefect, before, p, after, hpipelines, hdefect.blamed_eq, hlocal⟩
    rw [hpipelines, List.getElem?_append_right (Nat.le_refl _), Nat.sub_self,
      List.getElem?_cons_zero]
  · refine ⟨?_, before, p, after, hpipelines, rfl, hlocal⟩
    have hnames : t.pipelineNames = effectiveNames before 0 ++
        p.effectiveName before.length :: effectiveNames after (before.length + 1) := by
      rw [pipelineNames, hpipelines, effectiveNames_append]
    rw [hall.map_name] at htaken
    obtain ⟨i, j, hij, hi, hj⟩ := exists_positions htaken (effectiveNames after (before.length + 1))
    exact .duplicatePipeline hij (hnames ▸ hi) (hnames ▸ hj)

/-! ### Ids that two components would share -/

/-- An id is refused if it has an owner, or if it was needed before. -/
theorem checkIds_eq_error {owners : IdOwners} {needs : List (String × String)} {fault : Fault}
    (h : checkIds owners needs = .error fault) :
    ∃ before id owner after first, needs = before ++ (id, owner) :: after ∧
      (owners[id]? = some first ∨ (id, first) ∈ before) ∧
        fault = .componentIdConflict id first owner := by
  induction needs generalizing owners with
  | nil => cases h
  | cons need rest ih =>
    obtain ⟨id, owner⟩ := need
    rw [checkIds] at h
    cases howner : owners[id]? with
    | some first =>
      rw [howner] at h
      cases h
      exact ⟨[], id, owner, rest, first, rfl, .inl howner, rfl⟩
    | none =>
      rw [howner] at h
      obtain ⟨before, id', owner', after, first, rfl, hfirst, rfl⟩ := ih h
      refine ⟨(id, owner) :: before, id', owner', after, first, rfl, ?_, rfl⟩
      simp only [Std.ExtTreeMap.getElem?_insert, Std.LawfulEqCmp.compare_eq_iff_eq] at hfirst
      split_ifs at hfirst with heq
      · subst heq
        rw [Option.some.injEq] at hfirst
        rcases hfirst with rfl | hfirst
        · exact .inr List.mem_cons_self
        · exact .inr (List.mem_cons_of_mem _ hfirst)
      · exact hfirst.imp_right (List.mem_cons_of_mem _)

/-- Where components that are not built in need their ids, each once, the fault names two different
ones of one id. -/
theorem Component.of_checkIds {own : List Component} {fault : Fault} (hn : own.Nodup)
    (hown : ∀ id, builtin id ∉ own)
    (h : checkIds builtinOwners (own.map fun c => (c.id, c.description)) = .error fault) :
    ∃ first second, first ∈ builtinIds.map builtin ++ own ∧ second ∈ own ∧ first ≠ second ∧
      first.id = second.id ∧
        fault = .componentIdConflict second.id first.description second.description := by
  obtain ⟨before, id, owner, after, description, hneeds, hfirst, rfl⟩ := checkIds_eq_error h
  obtain ⟨before, rest, rfl, rfl, hrest⟩ := List.map_eq_append_iff.1 hneeds
  obtain ⟨second, after, rfl, hsecond, rfl⟩ := List.map_eq_cons_iff.1 hrest
  obtain ⟨rfl, rfl⟩ := Prod.mk.inj hsecond
  have hmem : second ∈ before ++ second :: after := List.mem_append_right _ List.mem_cons_self
  rcases hfirst with hbuiltin | hbefore
  · rw [getElem?_builtinOwners, Option.ite_none_right_eq_some] at hbuiltin
    obtain ⟨hid, hdescription⟩ := hbuiltin
    obtain rfl := Option.some.inj hdescription
    refine ⟨builtin second.id, second, ?_, hmem, ?_, rfl, rfl⟩
    · exact List.mem_append_left _ (List.mem_map_of_mem hid)
    · intro heq
      have hnot := hown second.id
      rw [heq] at hnot
      exact hnot hmem
  · obtain ⟨first, hfirst, heq⟩ := List.mem_map.1 hbefore
    obtain ⟨hid, rfl⟩ := Prod.mk.inj heq
    refine ⟨first, second, ?_, hmem, ?_, hid, rfl⟩
    · exact List.mem_append_right _ (List.mem_append_left _ hfirst)
    · rintro rfl
      exact (List.nodup_append.1 hn).2.2 first hfirst first List.mem_cons_self rfl

/-- The needed ids are those of the pipelines and outputs. -/
theorem neededIds_eq {pipelines : List Pipeline} {outputs : Outputs}
    (hp : ∀ p ∈ pipelines, p.id = componentId p.name)
    (ho : ∀ o ∈ outputs.list, o.id = componentId o.name) :
    neededIds pipelines outputs =
      (pipelines.map (Component.pipeline ·.name) ++
        outputs.list.map (Component.output ·.name)).map fun c => (c.id, c.description) := by
  rw [neededIds, List.map_append, List.map_map, List.map_map]
  congr 1
  · exact List.map_congr_left fun p hmem => by rw [hp p hmem]; rfl
  · exact List.map_congr_left fun o hmem => by rw [ho o hmem]; rfl

/-! ### Environment ids that two secrets would share -/

/-- A secret is refused if a different one of its environment id was seen before. -/
theorem checkEnvironmentIds_eq_error {seen : Std.ExtTreeMap String String} {secrets : List String}
    {fault : Fault} (h : checkEnvironmentIds seen secrets = .error fault) :
    ∃ first, ∃ second ∈ secrets, first ≠ second ∧
      (seen[environmentId second]? = some first ∨
        first ∈ secrets ∧ environmentId first = environmentId second) ∧
      fault = .secretEnvConflict (environmentId second) first second := by
  induction secrets generalizing seen with
  | nil => cases h
  | cons secret rest ih =>
    rw [checkEnvironmentIds] at h
    cases hseen : seen[environmentId secret]? with
    | none =>
      rw [hseen] at h
      obtain ⟨first, second, hsecond, hne, hfirst, rfl⟩ := ih h
      refine ⟨first, second, List.mem_cons_of_mem _ hsecond, hne, ?_, rfl⟩
      rcases hfirst with hfirst | ⟨hmem, henv⟩
      · simp only [Std.ExtTreeMap.getElem?_insert, Std.LawfulEqCmp.compare_eq_iff_eq] at hfirst
        split_ifs at hfirst with heq
        · obtain rfl := Option.some.inj hfirst
          exact .inr ⟨List.mem_cons_self, heq⟩
        · exact .inl hfirst
      · exact .inr ⟨List.mem_cons_of_mem _ hmem, henv⟩
    | some kept =>
      rw [hseen] at h
      dsimp only at h
      split_ifs at h with heq
      · obtain ⟨first, second, hsecond, hne, hfirst, rfl⟩ := ih h
        refine ⟨first, second, List.mem_cons_of_mem _ hsecond, hne, ?_, rfl⟩
        exact hfirst.imp_right (And.imp_left (List.mem_cons_of_mem _))
      · cases h
        exact ⟨kept, secret, List.mem_cons_self, heq, .inl hseen, rfl⟩

/-! ### The phases together -/

namespace Topology

variable {t : Topology} {fault : Fault}

/-- Resolution fails in one of its phases, and those before it succeed. -/
theorem resolve_eq_error_iff :
    t.resolve = .error fault ↔
      t.outputs.foldlM addOutput ∅ = .error fault ∨
      ∃ known, t.outputs.foldlM addOutput ∅ = .ok known ∧
        (t.pipelines.foldlM (addPipeline known) [] = .error fault ∨
        ∃ pipelines, t.pipelines.foldlM (addPipeline known) [] = .ok pipelines ∧
          (checkIds builtinOwners (neededIds pipelines (withLogStore pipelines known)) =
              .error fault ∨
            checkIds builtinOwners (neededIds pipelines (withLogStore pipelines known)) = .ok () ∧
            checkEnvironmentIds ∅ ((withLogStore pipelines known).list.filterMap Output.secret) =
              .error fault)) := by
  unfold resolve
  simp only [bind_eq_error_iff]
  constructor
  · rintro (h | ⟨known, hk, h | ⟨pipelines, hp, h | ⟨_, hi, h | ⟨_, _, h⟩⟩⟩⟩)
    · exact .inl h
    · exact .inr ⟨known, hk, .inl h⟩
    · exact .inr ⟨known, hk, .inr ⟨pipelines, hp, .inl h⟩⟩
    · exact .inr ⟨known, hk, .inr ⟨pipelines, hp, .inr ⟨hi, h⟩⟩⟩
    · cases h
  · rintro (h | ⟨known, hk, h | ⟨pipelines, hp, h | ⟨hi, h⟩⟩⟩)
    · exact .inl h
    · exact .inr ⟨known, hk, .inl h⟩
    · exact .inr ⟨known, hk, .inr ⟨pipelines, hp, .inl h⟩⟩
    · exact .inr ⟨known, hk, .inr ⟨pipelines, hp, .inr ⟨(), hi, .inl h⟩⟩⟩

/-- What needs an id is never built in. -/
theorem builtin_notMem_ownComponents (id : String) : .builtin id ∉ t.ownComponents := by
  simp [ownComponents]

/-- Where no name is given twice, every pipeline and every output is a component of its own. -/
theorem ownComponents_nodup (hp : t.pipelineNames.Nodup)
    (ho : (t.allOutputs.map Output.name).Nodup) : t.ownComponents.Nodup := by
  rw [ownComponents, List.nodup_append']
  refine ⟨hp.map fun _ _ h => Component.pipeline.inj h, ?_, ?_⟩
  · rw [← Function.comp_def Component.output, ← List.map_map]
    exact ho.map fun _ _ h => Component.output.inj h
  · intro c hpipeline houtput
    obtain ⟨name, _, rfl⟩ := List.mem_map.1 hpipeline
    obtain ⟨o, _, heq⟩ := List.mem_map.1 houtput
    cases heq

/-- The components that the plan asks ids for are those that are declared. -/
theorem perm_ownComponents {pipelines : List Pipeline} {outputs : Outputs}
    (hp : ResolveAll pipelines t.pipelines 0) (ho : outputs.list.Perm t.allOutputs) :
    (pipelines.map (Component.pipeline ·.name) ++
      outputs.list.map (Component.output ·.name)).Perm t.ownComponents := by
  have hpipelines : pipelines.map (Component.pipeline ·.name) =
      t.pipelineNames.map .pipeline := by
    rw [pipelineNames, ← hp.map_name, List.map_map]
    rfl
  rw [hpipelines]
  exact (ho.map _).append_left _

/-- An id that is refused is shared by two components. -/
theorem exists_componentIdConflict {pipelines : List Pipeline} {outputs : Outputs}
    (hn : t.ownComponents.Nodup) (hp : ResolveAll pipelines t.pipelines 0)
    (ho : outputs.list.Perm t.allOutputs)
    (h : checkIds builtinOwners (neededIds pipelines outputs) = .error fault) :
    ∃ first second, first ∈ t.components ∧ second ∈ t.components ∧ first ≠ second ∧
      first.id = second.id ∧
        fault = .componentIdConflict second.id first.description second.description := by
  have hpipelineIds : ∀ p ∈ pipelines, p.id = componentId p.name := fun p hmem => by
    obtain ⟨_, _, _, hdeclared⟩ := hp.exists_declared hmem
    rw [hdeclared.id_eq, hdeclared.name_eq]
  have houtputIds : ∀ o ∈ outputs.list, o.id = componentId o.name := fun o hmem =>
    id_eq_of_mem_allOutputs (ho.mem_iff.1 hmem)
  have hperm := perm_ownComponents hp ho
  rw [neededIds_eq hpipelineIds houtputIds] at h
  obtain ⟨first, second, hfirst, hsecond, hne, hid, rfl⟩ :=
    Component.of_checkIds (hperm.nodup_iff.2 hn)
      (fun id hmem => builtin_notMem_ownComponents id (hperm.mem_iff.1 hmem)) h
  exact ⟨first, second, (hperm.append_left _).mem_iff.1 hfirst,
    List.mem_append_right _ (hperm.mem_iff.1 hsecond), hne, hid, rfl⟩

/-- Where outputs and pipelines are accepted, what fails is a name that is shared. -/
theorem exists_conflict {known : Outputs} {pipelines : List Pipeline}
    (hk : t.outputs.foldlM addOutput ∅ = .ok known)
    (hp : t.pipelines.foldlM (addPipeline known) [] = .ok pipelines)
    (h : checkIds builtinOwners (neededIds pipelines (withLogStore pipelines known)) =
        .error fault ∨
      checkEnvironmentIds ∅ ((withLogStore pipelines known).list.filterMap Output.secret) =
        .error fault) :
    t.Defect fault ∧ fault.blamed = none := by
  obtain ⟨hall, hnodup, _⟩ := (exists_foldlM_addOutput_iff .empty).1 ⟨known, hk⟩
  have hholds : known.Holds (t.outputs.map DeclaredOutput.toOutput) :=
    .of_foldlM_addOutput .empty hk
  have hreserved : ∀ o ∈ t.outputs, o.name ≠ defaultOutputName := fun o ho => (hall o ho).1
  have hoNames := allOutputs_names_nodup hnodup hreserved
  obtain ⟨_, hpNames, _⟩ :=
    (exists_foldlM_addPipeline_iff (mem_known_iff hholds)).1 ⟨pipelines, hp⟩
  obtain ⟨_, rfl, hresolved⟩ := resolveAll_of_foldlM_addPipeline hp
  have hperm := (holds_withLogStore hreserved hholds hresolved).list_perm hoNames
  rcases h with hids | henvs
  · obtain ⟨first, second, hfirst, hsecond, hne, hid, rfl⟩ :=
      exists_componentIdConflict (ownComponents_nodup hpNames hoNames) hresolved hperm hids
    exact ⟨.componentIdConflict hfirst hsecond hne hid, rfl⟩
  · obtain ⟨first, second, hsecond, hne, hfirst | ⟨hfirst, henv⟩, rfl⟩ :=
      checkEnvironmentIds_eq_error henvs
    · rw [Std.ExtTreeMap.getElem?_empty] at hfirst
      cases hfirst
    · have hused := hperm.filterMap Output.secret
      exact ⟨.secretEnvConflict (hused.mem_iff.1 hfirst) (hused.mem_iff.1 hsecond) hne henv, rfl⟩

/-- What is reported is there, in whichever phase it is found. -/
theorem Defect.of_resolve (h : t.resolve = .error fault) : t.Defect fault := by
  rcases resolve_eq_error_iff.1 h with houtputs | ⟨known, hk, hpipelines | ⟨pipelines, hp, hrest⟩⟩
  · exact (exists_bad_output houtputs).1
  · exact (exists_bad_pipeline (mem_known_iff (.of_foldlM_addOutput .empty hk)) hpipelines).1
  · exact (exists_conflict hk hp (hrest.imp_right And.right)).1

/-- **Every fault of resolution names a defect.** What it says can be seen in the declarations; it
is not about secret material, nor about elements. A fault that tells of an output is that of the
first bad one: it has the name, and neither the outputs after it nor the pipelines have a part in
the fault. A fault that tells of a pipeline is that of the first bad one in the same way, and the
pipelines after it have no part. -/
theorem defect_of_resolve (h : t.resolve = .error fault) :
    t.Defect fault ∧ (fault.kind = .reference ∨ fault.kind = .invalid) ∧
    (∀ name, fault.blamed = some (.output name) →
      ∃ before o after, t.outputs = before ++ o :: after ∧ o.name = name ∧
        ∀ after' pipelines, resolve ⟨pipelines, before ++ o :: after'⟩ = .error fault) ∧
    ∀ name, fault.blamed = some (.pipeline name) →
      ∃ before p after, t.pipelines = before ++ p :: after ∧
        p.effectiveName before.length = name ∧
          ∀ after', resolve ⟨before ++ p :: after', t.outputs⟩ = .error fault := by
  refine ⟨.of_resolve h, (Defect.of_resolve h).kind_eq, ?_⟩
  rcases resolve_eq_error_iff.1 h with houtputs | ⟨known, hk, hpipelines | ⟨pipelines, hp, hrest⟩⟩
  · obtain ⟨_, before, o, after, hsplit, hblamed, hlocal⟩ := exists_bad_output houtputs
    simp only [hblamed]
    refine ⟨fun name hname => ?_, fun name hname => ?_⟩
    · cases hname
      refine ⟨before, o, after, hsplit, rfl, fun after' pipelines => ?_⟩
      exact resolve_eq_error_iff.2 (.inl (hlocal after'))
    · cases hname
  · obtain ⟨_, before, p, after, hsplit, hblamed, hlocal⟩ :=
      exists_bad_pipeline (mem_known_iff (.of_foldlM_addOutput .empty hk)) hpipelines
    simp only [hblamed]
    refine ⟨fun name hname => ?_, fun name hname => ?_⟩
    · cases hname
    · cases hname
      refine ⟨before, p, after, hsplit, rfl, fun after' => ?_⟩
      exact resolve_eq_error_iff.2 (.inr ⟨known, hk, .inl (hlocal after')⟩)
  · obtain ⟨_, hnone⟩ := exists_conflict hk hp (hrest.imp_right And.right)
    simp [hnone]

end Topology

/-- The second pipeline has no name and refers to an output that is not there; the third takes the
name of the first. -/
def astray : Topology where
  pipelines :=
    [{ name := "app", inputs := ["application"], outputs := ["default"] },
      { inputs := ["audit"], outputs := ["default", "spare"] },
      { name := "app", inputs := ["audit"], outputs := ["default"] }]

theorem defect_of_resolve_astray :
    astray.resolve = .error (.unknownOutput "pipeline_1" "spare") ∧
    astray.Defect (.unknownOutput "pipeline_1" "spare") ∧
      ∃ before p after, astray.pipelines = before ++ p :: after ∧
        p.effectiveName before.length = "pipeline_1" ∧
          ∀ after', Topology.resolve ⟨before ++ p :: after', astray.outputs⟩ =
            .error (.unknownOutput "pipeline_1" "spare") := by
  have h : astray.resolve = .error (.unknownOutput "pipeline_1" "spare") := by rfl
  obtain ⟨hdefect, _, _, hlocal⟩ := Topology.defect_of_resolve h
  exact ⟨h, hdefect, hlocal "pipeline_1" rfl⟩

end LogForwarding
