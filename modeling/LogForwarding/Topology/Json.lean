/-
# Topologies and secrets in JSON

The records of a topology, with their fields in order. A pipeline and a
topology may leave any field out; an output needs a name and a type; a Google
Cloud Logging block needs a project.

Secrets are a dictionary of dictionaries of strings. A value is kept as the
bytes of its text.

Key definitions: `Topology.ofJson`, `OutputType.read`, `Secrets.ofJson`.
-/
import LogForwarding.Json.Shape
import LogForwarding.Secret
import LogForwarding.Topology

namespace LogForwarding

open Json (RecordField Reader Record Misfit ReadFault)

/-- A field that the draft `δ` holds as an option, and that is written by `put` once it is read. -/
def draftField {δ α : Type} (key : String) (get : δ → Option α) (put : δ → α → δ)
    (read : Reader α) : RecordField δ where
  key := key
  isSet := fun draft => (get draft).isSome
  read := fun draft s => (read s).map (·.map (put draft))

/-- The value of a field that is needed. -/
def needed {α : Type} (absent : Nat → String → Misfit) (position : Nat) (key : String) :
    Option α → Except Misfit α
  | some value => .ok value
  | none => .error (absent position key)

/-- A string as the value of a field. -/
def stringReader : Reader String := Json.text "a string"

/-- A sequence of strings. -/
def stringsReader : Reader (List String) := Json.sequence stringReader

/-- The types of output with their names. -/
def namedOutputTypes : List (String × OutputType) :=
  OutputType.all.map fun type => (type.name, type)

/-- A type of output. -/
def outputTypeReader : Reader OutputType := Json.choice namedOutputTypes

/-- A reference to a secret: a record with its name. -/
def secretRefRecord : Record (Option String) String where
  name := "SecretRef"
  blank := none
  fields := [draftField "name" id (fun _ name => some name) stringReader]
  finish := fun absent draft => needed absent 0 "name" draft

/-- The fields of a Google Cloud Logging block as far as they are known. -/
structure GoogleCloudLogging.Draft where
  /-- The project. -/
  projectId : Option String := none
  /-- The log in the project. -/
  logId : Option String := none

/-- A Google Cloud Logging block. -/
def googleCloudLoggingRecord : Record GoogleCloudLogging.Draft GoogleCloudLogging where
  name := "GoogleCloudLoggingSpec"
  blank := {}
  fields := [
    draftField "projectId" (·.projectId) ({ · with projectId := some · }) stringReader,
    draftField "logId" (·.logId) ({ · with logId := some · }) stringReader]
  finish := fun absent draft => do
    let projectId ← needed absent 0 "projectId" draft.projectId
    match draft.logId with
    | some logId => return { projectId, logId }
    | none => return { projectId }

/-- The fields of an output as far as they are known. -/
structure DeclaredOutput.Draft where
  /-- The name. -/
  name : Option String := none
  /-- The type. -/
  type : Option OutputType := none
  /-- The url, which may be `null`. -/
  url : Option (Option String) := none
  /-- The secret, which may be `null`. -/
  secret : Option (Option String) := none
  /-- The block for Google Cloud Logging, which may be `null`. -/
  googleCloudLogging : Option (Option GoogleCloudLogging) := none

/-- An output. -/
def outputRecord : Record DeclaredOutput.Draft DeclaredOutput where
  name := "OutputSpec"
  blank := {}
  fields := [
    draftField "name" (·.name) ({ · with name := some · }) stringReader,
    draftField "type" (·.type) ({ · with type := some · }) outputTypeReader,
    draftField "url" (·.url) ({ · with url := some · }) (Json.optional stringReader),
    draftField "secret" (·.secret) ({ · with secret := some · })
      (Json.optional secretRefRecord.reader),
    draftField "googleCloudLogging" (·.googleCloudLogging) ({ · with googleCloudLogging := some · })
      (Json.optional googleCloudLoggingRecord.reader)]
  finish := fun absent draft => do
    let name ← needed absent 0 "name" draft.name
    let type ← needed absent 1 "type" draft.type
    return {
      name, type
      url := draft.url.join
      secret := draft.secret.join
      googleCloudLogging := draft.googleCloudLogging.join }

/-- The fields of a pipeline as far as they are known. -/
structure DeclaredPipeline.Draft where
  /-- The name. -/
  name : Option String := none
  /-- The names of the inputs. -/
  inputs : Option (List String) := none
  /-- The names of the outputs. -/
  outputs : Option (List String) := none

/-- A pipeline. -/
def pipelineRecord : Record DeclaredPipeline.Draft DeclaredPipeline where
  name := "PipelineSpec"
  blank := {}
  fields := [
    draftField "name" (·.name) ({ · with name := some · }) stringReader,
    draftField "inputRefs" (·.inputs) ({ · with inputs := some · }) stringsReader,
    draftField "outputRefs" (·.outputs) ({ · with outputs := some · }) stringsReader]
  finish := fun _ draft =>
    .ok ⟨draft.name.getD "", draft.inputs.getD [], draft.outputs.getD []⟩

/-- The fields of a topology as far as they are known. -/
structure Topology.Draft where
  /-- The pipelines. -/
  pipelines : Option (List DeclaredPipeline) := none
  /-- The outputs. -/
  outputs : Option (List DeclaredOutput) := none

/-- A topology. -/
def topologyRecord : Record Topology.Draft Topology where
  name := "Topology"
  blank := {}
  fields := [
    draftField "pipelines" (·.pipelines) ({ · with pipelines := some · })
      (Json.sequence pipelineRecord.reader),
    draftField "outputs" (·.outputs) ({ · with outputs := some · })
      (Json.sequence outputRecord.reader)]
  finish := fun _ draft => .ok ⟨draft.pipelines.getD [], draft.outputs.getD []⟩

/-- The topology that a JSON text describes. -/
def Topology.ofJson (text : String) : Except ReadFault Topology := topologyRecord.reader.parse text

/-- The type of output of the given name. -/
def OutputType.read (name : String) : Except ReadFault OutputType := Json.pick namedOutputTypes name

/-- The secret with the given texts as values. -/
def Secret.ofTexts (texts : Std.ExtTreeMap String String) : Secret :=
  texts.map fun _ text => text.toUTF8

/-- The secrets that a JSON text describes. -/
def Secrets.ofJson (text : String) : Except Json.ReadFault Secrets :=
  let secret : Json.Reader Secret := fun s =>
    (Json.dictionary (Json.text "a string") s).map (·.map Secret.ofTexts)
  (Json.dictionary secret).parse text

end LogForwarding
