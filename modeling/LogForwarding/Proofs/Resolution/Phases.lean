/-
# What each phase of resolution accepts

Resolution runs through the outputs, the pipelines, the component ids and the
environment ids. Each phase carries what it has found so far, and looks at one
declaration after the other; here each is given a condition on its whole list,
which holds if and only if the phase succeeds, and a description of what it
then has found.

Key definitions: `DeclaredOutput.HasTarget`, `Outputs.Holds`,
`DeclaredPipeline.Resolvable`, `Pipeline.Resolves`, `ResolveAll`,
`Distinguished`.
Key theorems: `exists_foldlM_addOutput_iff`, `exists_foldlM_addPipeline_iff`,
`checkIds_eq_ok_iff`, `getElem?_builtinOwners`, `checkEnvironmentIds_eq_ok_iff`.
-/
import LogForwarding.Proofs.FirstFault
import LogForwarding.Proofs.FirstSeen
import LogForwarding.Resolution
import Mathlib.Data.List.Nodup

namespace LogForwarding

/-! ### Outputs -/

/-- What the type of an output asks for is declared. -/
structure DeclaredOutput.HasTarget (o : DeclaredOutput) : Prop where
  /-- There is a url with a character that is not blank. -/
  url : o.type.needsUrl → ∃ url, o.url = some url ∧ ∃ c ∈ url.toList, Text.isBlank c = false
  /-- There is a place in Google Cloud Logging. -/
  block : o.type = .googleCloudLogging → ∃ block, o.googleCloudLogging = some block

theorem DeclaredOutput.hasUrl_iff {o : DeclaredOutput} :
    o.hasUrl ↔ ∃ url, o.url = some url ∧ ∃ c ∈ url.toList, Text.isBlank c = false := by
  cases h : o.url <;> simp [hasUrl, h, Text.isBlankText]

theorem OutputType.needsUrl_eq_false_iff {type : OutputType} :
    type.needsUrl = false ↔ type = .googleCloudLogging := by
  cases type <;> simp [needsUrl]

/-- The outputs are those of the list, each under its own name. -/
def Outputs.Holds (outputs : Outputs) (list : List Output) : Prop :=
  ∀ (name : String) (o : Output), outputs[name]? = some o ↔ o ∈ list ∧ o.name = name

namespace Outputs.Holds

theorem empty : Outputs.Holds ∅ [] := by simp [Holds]

theorem mem_iff {outputs : Outputs} {list : List Output} (h : outputs.Holds list)
    {name : String} : name ∈ outputs ↔ name ∈ list.map Output.name := by
  rw [← Std.ExtTreeMap.isSome_getElem?_iff_mem, Option.isSome_iff_exists, List.mem_map]
  exact exists_congr fun o => h name o

/-- Outputs under their own names are told by what is in the list. -/
theorem eq_of_perm {outputs outputs' : Outputs} {list list' : List Output}
    (h : outputs.Holds list) (h' : outputs'.Holds list') (hp : list.Perm list') :
    outputs = outputs' := by
  refine Std.ExtTreeMap.ext_getElem? fun name => Option.ext fun o => ?_
  rw [h name o, h' name o, hp.mem_iff]

theorem insert {outputs : Outputs} {list : List Output} {o : Output} (h : outputs.Holds list)
    (hn : o.name ∉ list.map Output.name) :
    Outputs.Holds (Std.ExtTreeMap.insert outputs o.name o) (list ++ [o]) := by
  intro name x
  rw [Std.ExtTreeMap.getElem?_insert, List.mem_append, List.mem_singleton]
  by_cases hname : o.name = name
  · rw [if_pos (Std.LawfulEqCmp.compare_eq_iff_eq.2 hname), Option.some.injEq]
    constructor
    · rintro rfl
      exact ⟨.inr rfl, hname⟩
    · rintro ⟨hx | rfl, hxn⟩
      · exact absurd (List.mem_map.2 ⟨x, hx, hxn.trans hname.symm⟩) hn
      · rfl
  · rw [if_neg fun hc => hname (Std.LawfulEqCmp.compare_eq_iff_eq.1 hc), h name x]
    constructor
    · rintro ⟨hx, hxn⟩
      exact ⟨.inl hx, hxn⟩
    · rintro ⟨hx | rfl, hxn⟩
      · exact ⟨hx, hxn⟩
      · exact absurd hxn hname

end Outputs.Holds

theorem addOutput_eq_ok_iff {known known' : Outputs} {o : DeclaredOutput} :
    addOutput known o = .ok known' ↔
      (o.name ≠ defaultOutputName ∧ o.HasTarget ∧ o.name ∉ known) ∧
        known' = known.insert o.name o.toOutput := by
  have htarget : o.HasTarget ↔
      ¬ (o.type.needsUrl ∧ ¬ o.hasUrl) ∧ ¬ (¬ o.type.needsUrl ∧ o.googleCloudLogging.isNone) := by
    rw [DeclaredOutput.hasUrl_iff, Bool.not_eq_true, OutputType.needsUrl_eq_false_iff,
      Option.isNone_iff_eq_none, not_and_not_right, not_and, ← ne_eq, Option.ne_none_iff_exists']
    exact ⟨fun h => ⟨h.url, h.block⟩, fun h => ⟨h.1, h.2⟩⟩
  rw [htarget]
  unfold addOutput
  split_ifs with hd hn hu hb
  · exact iff_of_false nofun fun h => h.1.1 hd
  · exact iff_of_false nofun fun h => h.1.2.2 hn
  · exact iff_of_false nofun fun h => h.1.2.1.1 hu
  · exact iff_of_false nofun fun h => h.1.2.1.2 hb
  · rw [Except.ok.injEq, eq_comm]
    exact ⟨fun h => ⟨⟨hd, ⟨hu, hb⟩, hn⟩, h⟩, fun h => h.2⟩

/-- Outputs are accepted if none takes the name of the log store or that of another, and each has
what its type asks for. -/
theorem exists_foldlM_addOutput_iff {known : Outputs} {before : List Output}
    {outputs : List DeclaredOutput} (h : known.Holds before) :
    (∃ known', outputs.foldlM addOutput known = .ok known') ↔
      (∀ o ∈ outputs, o.name ≠ defaultOutputName ∧ o.HasTarget) ∧
        (outputs.map DeclaredOutput.name).Nodup ∧
        ∀ o ∈ outputs, o.name ∉ before.map Output.name := by
  induction outputs generalizing known before with
  | nil => simp [pure, Except.pure]
  | cons o rest ih =>
    simp only [List.foldlM_cons, bind_eq_ok_iff, addOutput_eq_ok_iff, h.mem_iff]
    constructor
    · rintro ⟨known', _, ⟨⟨hd, ht, hn⟩, rfl⟩, hrest⟩
      obtain ⟨hall, hnodup, hfresh⟩ := (ih (h.insert (o := o.toOutput) hn)).1 ⟨known', hrest⟩
      simp only [List.map_append, List.mem_append, not_or] at hfresh
      refine ⟨List.forall_mem_cons.2 ⟨⟨hd, ht⟩, hall⟩, List.nodup_cons.2 ⟨?_, hnodup⟩,
        List.forall_mem_cons.2 ⟨hn, fun x hx => (hfresh x hx).1⟩⟩
      intro hmem
      obtain ⟨x, hx, hxn⟩ := List.mem_map.1 hmem
      exact (hfresh x hx).2 (by simp [hxn, DeclaredOutput.toOutput])
    · rintro ⟨hall, hnodup, hfresh⟩
      obtain ⟨⟨hd, ht⟩, hall⟩ := List.forall_mem_cons.1 hall
      obtain ⟨hn, hfresh⟩ := List.forall_mem_cons.1 hfresh
      obtain ⟨hnew, hnodup⟩ := List.nodup_cons.1 hnodup
      obtain ⟨known', hk⟩ := (ih (h.insert (o := o.toOutput) hn)).2 ⟨hall, hnodup, fun x hx => by
        simp only [List.map_append, List.mem_append, not_or]
        refine ⟨hfresh x hx, fun hxn => hnew (List.mem_map.2 ⟨x, hx, ?_⟩)⟩
        simpa [DeclaredOutput.toOutput] using hxn⟩
      exact ⟨known', _, ⟨⟨hd, ht, hn⟩, rfl⟩, hk⟩

/-- Accepted outputs are known under their names, after those before them. -/
theorem Outputs.Holds.of_foldlM_addOutput {known known' : Outputs} {before : List Output}
    {outputs : List DeclaredOutput} (h : known.Holds before)
    (hf : outputs.foldlM addOutput known = .ok known') :
    known'.Holds (before ++ outputs.map DeclaredOutput.toOutput) := by
  induction outputs generalizing known before with
  | nil =>
    cases hf
    simpa using h
  | cons o rest ih =>
    obtain ⟨_, hstep, hrest⟩ := bind_eq_ok_iff.1 hf
    obtain ⟨⟨_, _, hn⟩, rfl⟩ := addOutput_eq_ok_iff.1 hstep
    simpa using ih (h.insert (o := o.toOutput) (by rwa [← h.mem_iff])) hrest

/-! ### Pipelines -/

/-- The references of the pipeline can be resolved where the outputs `outputs` are declared. -/
structure DeclaredPipeline.Resolvable (p : DeclaredPipeline) (outputs : List String) : Prop where
  /-- It has an input. -/
  inputs_ne_nil : p.inputs ≠ []
  /-- It has an output. -/
  outputs_ne_nil : p.outputs ≠ []
  /-- Its inputs exist. -/
  inputs : ∀ name ∈ p.inputs, ∃ input : Input, input.name = name
  /-- Its outputs are declared, or the log store. -/
  outputs : ∀ name ∈ p.outputs, name = defaultOutputName ∨ name ∈ outputs

/-- The pipeline is `p` under the name `name`: it has the same references, each once. -/
structure Pipeline.Resolves (q : Pipeline) (p : DeclaredPipeline) (name : String) : Prop where
  /-- It has the name. -/
  name_eq : q.name = name
  /-- Its component id is made from the name. -/
  id_eq : q.id = componentId name
  /-- Its inputs are those referred to. -/
  inputs : FirstSeen p.inputs (q.inputs.map Input.name)
  /-- Its outputs are those referred to. -/
  outputs : FirstSeen p.outputs q.outputs

theorem Input.name_injective : Function.Injective Input.name := by
  intro a b h
  have ha := ofName?_eq_some_iff.2 h
  rw [ofName?_eq_some_iff.2 rfl] at ha
  exact (Option.some.inj ha).symm

/-- What is declared of a pipeline leaves no choice. -/
theorem Pipeline.Resolves.eq {q q' : Pipeline} {p : DeclaredPipeline} {name : String}
    (h : q.Resolves p name) (h' : q'.Resolves p name) : q = q' := by
  have hinputs : q.inputs = q'.inputs := List.map_injective_iff.2 Input.name_injective
    (h.inputs.eq_eraseDups.trans h'.inputs.eq_eraseDups.symm)
  have houtputs : q.outputs = q'.outputs :=
    h.outputs.eq_eraseDups.trans h'.outputs.eq_eraseDups.symm
  have hname : q.name = q'.name := h.name_eq.trans h'.name_eq.symm
  have hid : q.id = q'.id := h.id_eq.trans h'.id_eq.symm
  cases q
  cases q'
  rw [Pipeline.mk.injEq]
  exact ⟨hname, hid, hinputs, houtputs⟩

theorem resolveInput_eq_ok_iff {pipeline name : String} {input : Input} :
    resolveInput pipeline name = .ok input ↔ input.name = name := by
  rw [← Input.ofName?_eq_some_iff]
  unfold resolveInput
  cases Input.ofName? name <;> simp

theorem resolveOutput_eq_ok_iff {known : Outputs} {pipeline name found : String} :
    resolveOutput known pipeline name = .ok found ↔
      (name = defaultOutputName ∨ name ∈ known) ∧ found = name := by
  unfold resolveOutput
  split_ifs with h
  · simp [h, eq_comm]
  · simp [h]

theorem mapM_resolveInput_eq_ok_iff {pipeline : String} {names : List String}
    {inputs : List Input} :
    names.mapM (resolveInput pipeline) = .ok inputs ↔ inputs.map Input.name = names := by
  simp only [mapM_eq_ok_iff, resolveInput_eq_ok_iff]
  rw [eq_comm, ← List.forall₂_eq_eq_eq, List.forall₂_map_right_iff]
  simp only [eq_comm]

theorem mapM_resolveOutput_eq_ok_iff {known : Outputs} {pipeline : String}
    {names found : List String} :
    names.mapM (resolveOutput known pipeline) = .ok found ↔
      (∀ name ∈ names, name = defaultOutputName ∨ name ∈ known) ∧ found = names := by
  simp only [mapM_eq_ok_iff, resolveOutput_eq_ok_iff, List.forall₂_and_left, eq_comm (a := found),
    ← List.forall₂_eq_eq_eq]
  simp only [eq_comm]

namespace DeclaredPipeline

/-- Every pipeline has a name by its position at the latest. -/
theorem effectiveName_ne (p : DeclaredPipeline) (position : Nat) :
    p.effectiveName position ≠ "" := by
  unfold effectiveName
  split_ifs with h
  · intro heq
    have hlength := congrArg String.length heq
    rw [String.length_append] at hlength
    simp at hlength
  · exact h

theorem resolve_eq_ok_iff {known : Outputs} {name : String} {p : DeclaredPipeline} {q : Pipeline} :
    p.resolve known name = .ok q ↔
      p.inputs ≠ [] ∧ p.outputs ≠ [] ∧
        (∀ output ∈ p.outputs, output = defaultOutputName ∨ output ∈ known) ∧
        ∃ inputs : List Input, inputs.map Input.name = p.inputs ∧
          q = ⟨name, componentId name, inputs.eraseDups, p.outputs.eraseDups⟩ := by
  unfold resolve
  by_cases hi : p.inputs = []
  · rw [if_pos hi]
    exact iff_of_false nofun fun h => h.1 hi
  by_cases ho : p.outputs = []
  · rw [if_neg hi, if_pos ho]
    exact iff_of_false nofun fun h => h.2.1 ho
  rw [if_neg hi, if_neg ho]
  simp only [bind_eq_ok_iff, mapM_resolveInput_eq_ok_iff, mapM_resolveOutput_eq_ok_iff]
  constructor
  · rintro ⟨inputs, hinputs, _, ⟨houtputs, rfl⟩, hq⟩
    cases hq
    exact ⟨hi, ho, houtputs, inputs, hinputs, rfl⟩
  · rintro ⟨_, _, houtputs, inputs, hinputs, rfl⟩
    exact ⟨inputs, hinputs, _, ⟨houtputs, rfl⟩, rfl⟩

/-- A pipeline is accepted if all its references can be resolved. -/
theorem exists_resolve_iff {known : Outputs} {outputs : List String} {name : String}
    {p : DeclaredPipeline} (hk : ∀ name, name ∈ known ↔ name ∈ outputs) :
    (∃ q, p.resolve known name = .ok q) ↔ p.Resolvable outputs := by
  simp only [resolve_eq_ok_iff, hk]
  constructor
  · rintro ⟨_, hi, ho, houtputs, inputs, hinputs, _⟩
    refine ⟨hi, ho, fun input hinput => ?_, houtputs⟩
    rw [← hinputs] at hinput
    obtain ⟨i, _, hname⟩ := List.mem_map.1 hinput
    exact ⟨i, hname⟩
  · intro h
    have hall : ∀ input ∈ p.inputs, ∃ i, resolveInput name input = .ok i := by
      simp only [resolveInput_eq_ok_iff]
      exact h.inputs
    obtain ⟨inputs, hinputs⟩ := exists_mapM_eq_ok_iff.2 hall
    exact ⟨_, h.inputs_ne_nil, h.outputs_ne_nil, h.outputs, inputs,
      mapM_resolveInput_eq_ok_iff.1 hinputs, rfl⟩

/-- An accepted pipeline has the references that are declared. -/
theorem resolves_of_resolve {known : Outputs} {name : String} {p : DeclaredPipeline} {q : Pipeline}
    (h : p.resolve known name = .ok q) : q.Resolves p name := by
  obtain ⟨_, _, _, inputs, hinputs, rfl⟩ := resolve_eq_ok_iff.1 h
  refine ⟨rfl, rfl, ?_, firstSeen_eraseDups _⟩
  rw [← hinputs]
  exact (firstSeen_eraseDups inputs).map Input.name_injective

end DeclaredPipeline

/-- The names of declared pipelines, of which the first stands at the given position. -/
def effectiveNames (ps : List DeclaredPipeline) (position : Nat) : List String :=
  (ps.zipIdx position).map fun (p, i) => p.effectiveName i

/-- The pipelines are the declared ones, in order; the first of them stands at the given
position. -/
def ResolveAll (qs : List Pipeline) (ps : List DeclaredPipeline) (position : Nat) : Prop :=
  List.Forall₂ (fun (p, i) q => q.Resolves p (p.effectiveName i)) (ps.zipIdx position) qs

namespace ResolveAll

variable {qs : List Pipeline} {ps : List DeclaredPipeline} {position : Nat}

/-- Nor does what is declared of them all. -/
theorem eq {qs' : List Pipeline} (h : ResolveAll qs ps position)
    (h' : ResolveAll qs' ps position) : qs = qs' :=
  Relator.RightUnique.forall₂ (fun _ _ _ hq hq' => hq.eq hq') h h'

theorem map_id (h : ResolveAll qs ps position) :
    qs.map Pipeline.id = (effectiveNames ps position).map componentId := by
  rw [effectiveNames, List.map_map]
  exact (map_eq_map_of_forall₂ (h.imp fun _ _ hq => hq.id_eq.symm)).symm

/-- The pipelines that name an output are those that are declared to. -/
theorem map_id_filter (h : ResolveAll qs ps position) (output : String) :
    (qs.filter (output ∈ ·.outputs)).map Pipeline.id =
      ((ps.zipIdx position).filter (output ∈ ·.1.outputs)).map fun (p, i) =>
        componentId (p.effectiveName i) := by
  rw [ResolveAll] at h
  generalize ps.zipIdx position = declared at h ⊢
  induction h with
  | nil => rfl
  | cons hq _ ih =>
    have hnamed := hq.outputs.mem_iff output
    rw [List.filter_cons, List.filter_cons]
    simp only [hnamed]
    split_ifs
    · rw [List.map_cons, List.map_cons, hq.id_eq, ih]
    · exact ih

/-- Every pipeline is a declared one. -/
theorem exists_declared (h : ResolveAll qs ps position) {q : Pipeline} (hq : q ∈ qs) :
    ∃ p ∈ ps, ∃ name, q.Resolves p name := by
  obtain ⟨⟨p, i⟩, hp, hqp⟩ := exists_mem_of_forall₂ h hq
  exact ⟨p, List.fst_mem_of_mem_zipIdx hp, _, hqp⟩

/-- What is decided of a pipeline by what is declared of it can be asked of the declared ones. -/
theorem any_eq_any (h : ResolveAll qs ps position) {P : Pipeline → Bool}
    {Q : DeclaredPipeline → Bool} (hPQ : ∀ {q p name}, q.Resolves p name → P q = Q p) :
    qs.any P = ps.any Q := by
  have hmap : (ps.zipIdx position).map (Q ·.1) = qs.map P :=
    map_eq_map_of_forall₂ (h.imp fun _ _ hq => (hPQ hq).symm)
  rw [← List.zipIdx_map_fst position ps, List.any_map]
  simpa [List.any_map, Function.comp_def] using congrArg (List.any · id) hmap.symm

/-- Pipelines name the outputs that they are declared to name. -/
theorem any_mem_outputs (h : ResolveAll qs ps position) (output : String) :
    qs.any (output ∈ ·.outputs) = ps.any (output ∈ ·.outputs) :=
  h.any_eq_any fun hq => decide_eq_decide.2 (hq.outputs.mem_iff output)

/-- Pipelines take the inputs that they are declared to take. -/
theorem any_mem_inputs (h : ResolveAll qs ps position) (input : Input) :
    qs.any (input ∈ ·.inputs) = ps.any (input.name ∈ ·.inputs) := by
  refine h.any_eq_any fun hq => decide_eq_decide.2 ?_
  rw [← hq.inputs.mem_iff, List.mem_map_of_injective Input.name_injective]

/-- Without repetitions, the outputs that pipelines name are those that they are declared to
name. -/
theorem eraseDups_outputs (h : ResolveAll qs ps position) :
    (qs.flatMap Pipeline.outputs).eraseDups =
      (ps.flatMap DeclaredPipeline.outputs).eraseDups := by
  have hmap : (ps.zipIdx position).map (·.1.outputs.eraseDups) = qs.map Pipeline.outputs :=
    map_eq_map_of_forall₂ (h.imp fun _ _ hq => hq.outputs.eq_eraseDups.symm)
  have hfst := List.zipIdx_map_fst position ps
  calc (qs.flatMap Pipeline.outputs).eraseDups
    _ = ((ps.zipIdx position).flatMap (·.1.outputs.eraseDups)).eraseDups := by
      rw [List.flatMap_def, List.flatMap_def, hmap]
    _ = ((ps.zipIdx position).flatMap (·.1.outputs)).eraseDups :=
      eraseDups_flatMap_eraseDups _ _
    _ = (ps.flatMap DeclaredPipeline.outputs).eraseDups := by
      rw [← hfst, List.flatMap_map, hfst]

end ResolveAll

theorem addPipeline_eq_ok_iff {known : Outputs} {before all : List Pipeline}
    {p : DeclaredPipeline} :
    addPipeline known before p = .ok all ↔
      p.effectiveName before.length ∉ before.map Pipeline.name ∧
        ∃ q, p.resolve known (p.effectiveName before.length) = .ok q ∧ all = before ++ [q] := by
  unfold addPipeline
  dsimp only
  split_ifs with h
  · refine iff_of_false nofun fun hn => hn.1 ?_
    obtain ⟨q, hq, hname⟩ := List.any_eq_true.1 h
    exact List.mem_map.2 ⟨q, hq, by simpa using hname⟩
  · rw [map_eq_ok_iff]
    constructor
    · rintro ⟨q, hq, rfl⟩
      refine ⟨fun hmem => h ?_, q, hq, rfl⟩
      obtain ⟨x, hx, hname⟩ := List.mem_map.1 hmem
      exact List.any_eq_true.2 ⟨x, hx, by simpa using hname⟩
    · rintro ⟨_, q, hq, rfl⟩
      exact ⟨q, hq, rfl⟩

/-- Pipelines are accepted if their references can be resolved and no name is taken twice. -/
theorem exists_foldlM_addPipeline_iff {known : Outputs} {outputs : List String}
    {before : List Pipeline} {ps : List DeclaredPipeline}
    (hk : ∀ name, name ∈ known ↔ name ∈ outputs) :
    (∃ all, ps.foldlM (addPipeline known) before = .ok all) ↔
      (∀ p ∈ ps, p.Resolvable outputs) ∧ (effectiveNames ps before.length).Nodup ∧
        ∀ name ∈ effectiveNames ps before.length, name ∉ before.map Pipeline.name := by
  induction ps generalizing before with
  | nil => simp [effectiveNames, pure, Except.pure]
  | cons p rest ih =>
    have hnames : effectiveNames (p :: rest) before.length =
        p.effectiveName before.length :: effectiveNames rest (before.length + 1) := rfl
    have hstep : ∀ q, q.Resolves p (p.effectiveName before.length) →
        ((∃ all, rest.foldlM (addPipeline known) (before ++ [q]) = .ok all) ↔
          (∀ p ∈ rest, p.Resolvable outputs) ∧
            (effectiveNames rest (before.length + 1)).Nodup ∧
            ∀ name ∈ effectiveNames rest (before.length + 1),
              name ∉ before.map Pipeline.name ∧ name ≠ p.effectiveName before.length) := by
      intro q hq
      simp [ih, hq.name_eq]
    simp only [List.foldlM_cons, bind_eq_ok_iff, addPipeline_eq_ok_iff, hnames,
      List.forall_mem_cons, List.nodup_cons]
    constructor
    · rintro ⟨all, _, ⟨hn, q, hq, rfl⟩, hrest⟩
      obtain ⟨hall, hnodup, hfresh⟩ :=
        (hstep q (DeclaredPipeline.resolves_of_resolve hq)).1 ⟨all, hrest⟩
      exact ⟨⟨(DeclaredPipeline.exists_resolve_iff hk).1 ⟨q, hq⟩, hall⟩,
        ⟨fun hmem => (hfresh _ hmem).2 rfl, hnodup⟩, hn, fun name hname => (hfresh name hname).1⟩
    · rintro ⟨⟨hp, hall⟩, ⟨hnew, hnodup⟩, hn, hfresh⟩
      obtain ⟨q, hq⟩ := (DeclaredPipeline.exists_resolve_iff hk).2 hp
      obtain ⟨all, hrest⟩ := (hstep q (DeclaredPipeline.resolves_of_resolve hq)).2
        ⟨hall, hnodup, fun name hname => ⟨hfresh name hname, fun heq => hnew (heq ▸ hname)⟩⟩
      exact ⟨all, _, ⟨hn, q, hq, rfl⟩, hrest⟩

/-- Accepted pipelines stand in the order of their declaration, after those before them. -/
theorem resolveAll_of_foldlM_addPipeline {known : Outputs} {before all : List Pipeline}
    {ps : List DeclaredPipeline} (h : ps.foldlM (addPipeline known) before = .ok all) :
    ∃ rest, all = before ++ rest ∧ ResolveAll rest ps before.length := by
  induction ps generalizing before with
  | nil =>
    cases h
    exact ⟨[], by simp, .nil⟩
  | cons p ps ih =>
    obtain ⟨_, hstep, hrest⟩ := bind_eq_ok_iff.1 h
    obtain ⟨_, q, hq, rfl⟩ := addPipeline_eq_ok_iff.1 hstep
    obtain ⟨rest, rfl, hall⟩ := ih hrest
    rw [List.length_append] at hall
    exact ⟨q :: rest, by simp, .cons (DeclaredPipeline.resolves_of_resolve hq) hall⟩

/-! ### Component ids -/

/-- Ids are accepted if none is needed twice or has an owner. -/
theorem checkIds_eq_ok_iff {owners : IdOwners} {ids : List (String × String)} :
    checkIds owners ids = .ok () ↔
      (ids.map Prod.fst).Nodup ∧ ∀ id ∈ ids.map Prod.fst, id ∉ owners := by
  induction ids generalizing owners with
  | nil => simp [checkIds]
  | cons need rest ih =>
    obtain ⟨id, owner⟩ := need
    rw [checkIds, List.map_cons, List.nodup_cons, List.forall_mem_cons]
    cases howner : owners[id]? with
    | some first =>
      have hmem : id ∈ owners := by simp [Std.ExtTreeMap.mem_iff_isSome_getElem?, howner]
      exact iff_of_false nofun fun h => h.2.1 hmem
    | none =>
      have hnone : id ∉ owners := by simp [Std.ExtTreeMap.mem_iff_isSome_getElem?, howner]
      show checkIds (owners.insert id owner) rest = .ok () ↔ _
      rw [ih]
      simp only [Std.ExtTreeMap.mem_insert, Std.LawfulEqCmp.compare_eq_iff_eq, not_or]
      constructor
      · rintro ⟨hnodup, hfresh⟩
        exact ⟨⟨fun hmem => (hfresh id hmem).1 rfl, hnodup⟩, hnone, fun x hx => (hfresh x hx).2⟩
      · rintro ⟨⟨hnew, hnodup⟩, _, hfresh⟩
        exact ⟨hnodup, fun x hx => ⟨fun heq => hnew (heq ▸ hx), hfresh x hx⟩⟩

/-- The built-in ids have their owners from the start. -/
theorem getElem?_builtinOwners (id : String) :
    builtinOwners[id]? = if id ∈ builtinIds then some ("built-in " ++ id) else none := by
  have hfold : ∀ (ids : List String) (owners : IdOwners),
      (ids.foldl (fun owners id => owners.insert id ("built-in " ++ id)) owners)[id]? =
        if id ∈ ids then some ("built-in " ++ id) else owners[id]? := by
    intro ids
    induction ids with
    | nil => exact fun _ => rfl
    | cons first rest ih =>
      intro owners
      rw [List.foldl_cons, ih, Std.ExtTreeMap.getElem?_insert]
      simp only [Std.LawfulEqCmp.compare_eq_iff_eq, List.mem_cons]
      by_cases hrest : id ∈ rest
      · rw [if_pos hrest, if_pos (.inr hrest)]
      · by_cases hfirst : first = id
        · rw [if_neg hrest, if_pos hfirst, if_pos (.inl hfirst.symm), hfirst]
        · rw [if_neg hrest, if_neg hfirst, if_neg (not_or.2 ⟨Ne.symm hfirst, hrest⟩)]
  rw [builtinOwners, hfold, Std.ExtTreeMap.getElem?_empty]

theorem mem_builtinOwners {id : String} : id ∈ builtinOwners ↔ id ∈ builtinIds := by
  rw [← Std.ExtTreeMap.isSome_getElem?_iff_mem, getElem?_builtinOwners]
  split_ifs with h <;> simp [h]

/-! ### Environment ids -/

/-- Different secrets have different environment ids. -/
def Distinguished (secrets : List String) : Prop :=
  ∀ a ∈ secrets, ∀ b ∈ secrets, environmentId a = environmentId b → a = b

theorem distinguished_cons {secret : String} {rest : List String} :
    Distinguished (secret :: rest) ↔
      (∀ b ∈ rest, environmentId secret = environmentId b → secret = b) ∧ Distinguished rest := by
  simp only [Distinguished, List.forall_mem_cons, forall_const]
  constructor
  · rintro ⟨⟨_, hnew⟩, hrest⟩
    exact ⟨hnew, fun a ha => (hrest a ha).2⟩
  · rintro ⟨hnew, hrest⟩
    exact ⟨⟨trivial, hnew⟩, fun a ha => ⟨fun h => (hnew a ha h.symm).symm, hrest a ha⟩⟩

/-- Secrets are accepted if none has the environment id of a different one. -/
theorem checkEnvironmentIds_eq_ok_iff {seen : Std.ExtTreeMap String String}
    {secrets : List String} :
    checkEnvironmentIds seen secrets = .ok () ↔
      (∀ secret ∈ secrets, ∀ first, seen[environmentId secret]? = some first → first = secret) ∧
        Distinguished secrets := by
  induction secrets generalizing seen with
  | nil => simp [checkEnvironmentIds, Distinguished]
  | cons secret rest ih =>
    rw [checkEnvironmentIds, distinguished_cons, List.forall_mem_cons]
    cases hseen : seen[environmentId secret]? with
    | none =>
      show checkEnvironmentIds (seen.insert (environmentId secret) secret) rest = .ok () ↔ _
      rw [ih]
      simp only [Std.ExtTreeMap.getElem?_insert, Std.LawfulEqCmp.compare_eq_iff_eq]
      constructor
      · rintro ⟨hfirst, hrest⟩
        refine ⟨⟨nofun, fun b hb first hb' => hfirst b hb first ?_⟩, fun b hb heq => ?_, hrest⟩
        · rw [if_neg fun heq => ?_]
          · exact hb'
          · rw [← heq, hseen] at hb'
            cases hb'
        · exact hfirst b hb secret (if_pos heq)
      · rintro ⟨⟨_, hfirst⟩, hnew, hrest⟩
        refine ⟨fun b hb first hb' => ?_, hrest⟩
        split_ifs at hb' with heq
        · cases hb'
          exact hnew b hb heq
        · exact hfirst b hb first hb'
    | some first =>
      by_cases h : first = secret
      · subst h
        show (if first = first then checkEnvironmentIds seen rest else _) = .ok () ↔ _
        rw [if_pos rfl, ih]
        constructor
        · rintro ⟨hfirst, hrest⟩
          refine ⟨⟨fun _ h => (Option.some.inj h).symm, hfirst⟩, fun b hb heq => ?_, hrest⟩
          exact hfirst b hb first (heq ▸ hseen)
        · rintro ⟨⟨_, hfirst⟩, _, hrest⟩
          exact ⟨hfirst, hrest⟩
      · show (if first = secret then _ else _) = _ ↔ _
        rw [if_neg h]
        exact iff_of_false nofun fun hall => h (hall.1.1 first rfl)

end LogForwarding
