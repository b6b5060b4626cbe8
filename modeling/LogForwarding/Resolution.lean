/-
# Resolution of a topology into a plan

The declared outputs are checked first, one by one; then the pipelines, each
with all its references; then the component ids, which pipelines, outputs and
built-in components share; and last the environment ids of the secrets. The
first problem found is the answer.

The log store of the cluster becomes one of the outputs when a pipeline names
it.

Key definitions: `addOutput`, `DeclaredPipeline.resolve`, `checkIds`,
`checkEnvironmentIds`, `Topology.resolve`.
-/
import LogForwarding.Fault
import LogForwarding.Identifier
import LogForwarding.Plan
import LogForwarding.Text.Trim
import LogForwarding.Topology

namespace LogForwarding

namespace DeclaredOutput

/-- The output that is declared. -/
def toOutput (o : DeclaredOutput) : Output where
  name := o.name
  id := componentId o.name
  type := o.type
  url := o.url
  secret := o.secret
  googleCloudLogging := o.googleCloudLogging

/-- The output has a url that is not blank. -/
def hasUrl (o : DeclaredOutput) : Bool := o.url.any (!Text.isBlankText ·)

end DeclaredOutput

/-- Add a declared output to those before it. -/
def addOutput (known : Outputs) (o : DeclaredOutput) : Except Fault Outputs :=
  if o.name = defaultOutputName then .error (.reservedOutputName o.name)
  else if o.name ∈ known then .error (.duplicateOutput o.name)
  else if o.type.needsUrl ∧ ¬ o.hasUrl then .error (.missingUrl o.name)
  else if ¬ o.type.needsUrl ∧ o.googleCloudLogging.isNone then
    .error (.missingGoogleCloudLogging o.name)
  else .ok (known.insert o.name o.toOutput)

/-- The input that a pipeline refers to by `name`. -/
def resolveInput (pipeline name : String) : Except Fault Input :=
  match Input.ofName? name with
  | some input => .ok input
  | none => .error (.unknownInput pipeline name)

/-- The output that a pipeline refers to by `name`: a declared one or the log store. -/
def resolveOutput (known : Outputs) (pipeline name : String) : Except Fault String :=
  if name = defaultOutputName ∨ name ∈ known then .ok name
  else .error (.unknownOutput pipeline name)

namespace DeclaredPipeline

/-- The name of the pipeline at the given position. -/
def effectiveName (p : DeclaredPipeline) (position : Nat) : String :=
  if p.name = "" then "pipeline_" ++ toString position else p.name

/-- The pipeline under the name `name`, with its references resolved; a repeated one counts once. -/
def resolve (known : Outputs) (name : String) (p : DeclaredPipeline) : Except Fault Pipeline := do
  if p.inputs = [] then throw (.emptyPipeline name "input")
  if p.outputs = [] then throw (.emptyPipeline name "output")
  let inputs ← p.inputs.mapM (resolveInput name)
  let outputs ← p.outputs.mapM (resolveOutput known name)
  return ⟨name, componentId name, inputs.eraseDups, outputs.eraseDups⟩

end DeclaredPipeline

/-- Add a declared pipeline to those before it. -/
def addPipeline (known : Outputs) (before : List Pipeline) (p : DeclaredPipeline) :
    Except Fault (List Pipeline) :=
  let name := p.effectiveName before.length
  if before.any (·.name == name) then .error (.duplicatePipeline name)
  else (p.resolve known name).map (before ++ [·])

/-- The declared outputs, with the log store if a pipeline names it. -/
def withLogStore (pipelines : List Pipeline) (known : Outputs) : Outputs :=
  if pipelines.any (defaultOutputName ∈ ·.outputs) then
    known.insert defaultOutputName Output.logStore
  else known

/-- Component ids with a description of who has them. -/
abbrev IdOwners := Std.ExtTreeMap String String

/-- The owners of the built-in ids. -/
def builtinOwners : IdOwners :=
  builtinIds.foldl (fun owners id => owners.insert id ("built-in " ++ id)) ∅

/-- The ids that pipelines and outputs need, each with a description of who needs it. -/
def neededIds (pipelines : List Pipeline) (outputs : Outputs) : List (String × String) :=
  pipelines.map (fun p => (p.id, "pipeline " ++ p.name)) ++
    outputs.list.map (fun o => (o.id, "output " ++ o.name))

/-- No needed id has an owner before. -/
def checkIds (owners : IdOwners) : List (String × String) → Except Fault Unit
  | [] => .ok ()
  | (id, owner) :: rest =>
    match owners[id]? with
    | some first => .error (.componentIdConflict id first owner)
    | none => checkIds (owners.insert id owner) rest

/-- No two different secrets have one environment id. `seen` maps the ids so far to their
secrets. -/
def checkEnvironmentIds (seen : Std.ExtTreeMap String String) : List String → Except Fault Unit
  | [] => .ok ()
  | secret :: rest =>
    match seen[environmentId secret]? with
    | none => checkEnvironmentIds (seen.insert (environmentId secret) secret) rest
    | some first =>
      if first = secret then checkEnvironmentIds seen rest
      else .error (.secretEnvConflict (environmentId secret) first secret)

/-- The plan of a topology. -/
def Topology.resolve (t : Topology) : Except Fault Plan := do
  let known ← t.outputs.foldlM addOutput ∅
  let pipelines ← t.pipelines.foldlM (addPipeline known) []
  let outputs := withLogStore pipelines known
  checkIds builtinOwners (neededIds pipelines outputs)
  checkEnvironmentIds ∅ (outputs.list.filterMap Output.secret)
  return ⟨pipelines, outputs⟩

end LogForwarding
