/-
# What can go wrong between a topology and its configuration

A fault is found while names are resolved, while credentials are chosen, or
while the text is put together. Each has one of four kinds, by which a caller
decides what a failure means, and one line of text.

Key definitions: `Fault`, `Fault.kind`, `Fault.message`.
-/
import LogForwarding.Text.Quoted

namespace LogForwarding

/-- A reason why there is no configuration for a topology. -/
inductive Fault where
  /-- The pipeline names an input that does not exist. -/
  | unknownInput (pipeline input : String)
  /-- The pipeline names an output that is not declared. -/
  | unknownOutput (pipeline output : String)
  /-- Two pipelines have one name. -/
  | duplicatePipeline (name : String)
  /-- Two outputs have one name. -/
  | duplicateOutput (name : String)
  /-- A declared output takes the name of the built-in one. -/
  | reservedOutputName (name : String)
  /-- The pipeline names no input, or no output. -/
  | emptyPipeline (pipeline missing : String)
  /-- The output has no url, and its type needs one. -/
  | missingUrl (output : String)
  /-- The output has no Google Cloud Logging block, and its type needs one. -/
  | missingGoogleCloudLogging (output : String)
  /-- Two components would get one id. -/
  | componentIdConflict (id first second : String)
  /-- Two secrets would get one environment id. -/
  | secretEnvConflict (env first second : String)
  /-- The output names a secret that is not there. -/
  | missingSecret (output secret : String)
  /-- The secret holds some, but not all, of the keys of one credential. -/
  | missingSecretKey (output secret key : String)
  /-- The value under the key is not text. -/
  | invalidSecretValue (output key : String)
  /-- An element embeds itself along the chain of names. -/
  | templateCycle (chain : List String)
  /-- Two different elements have one name. -/
  | nameCollision (name : String)
  /-- No element has the name. -/
  | unknownElement (name : String)
  /-- A placeholder names a field that the element does not set. -/
  | missingField (element field : String)
  /-- A template cannot be read. -/
  | malformedTemplate (detail : String)
  deriving DecidableEq, Repr, Inhabited

/-- The kinds of fault. -/
inductive Fault.Kind where
  /-- A pipeline names something that does not exist. -/
  | reference
  /-- The topology itself is at fault. -/
  | invalid
  /-- Secret material is missing or of no use. -/
  | credential
  /-- The generated elements do not fit together. -/
  | structural
  deriving DecidableEq, Repr

namespace Fault

/-- The kind of a fault. -/
def kind : Fault → Kind
  | unknownInput .. | unknownOutput .. => .reference
  | duplicatePipeline _ | duplicateOutput _ | reservedOutputName _ | emptyPipeline ..
  | missingUrl _ | missingGoogleCloudLogging _ | componentIdConflict .. | secretEnvConflict .. =>
    .invalid
  | missingSecret .. | missingSecretKey .. | invalidSecretValue .. => .credential
  | templateCycle _ | nameCollision _ | unknownElement _ | missingField .. | malformedTemplate _ =>
    .structural

open Text (quoted)

/-- The text of a fault. Names are quoted; the missing part of a pipeline, a chain of elements
and the detail of a template stand as they are. -/
def message : Fault → String
  | unknownInput pipeline input =>
    "pipeline " ++ quoted pipeline ++ " references unknown input " ++ quoted input
  | unknownOutput pipeline output =>
    "pipeline " ++ quoted pipeline ++ " references unknown output " ++ quoted output
  | duplicatePipeline name => "duplicate pipeline name " ++ quoted name
  | duplicateOutput name => "duplicate output name " ++ quoted name
  | reservedOutputName name => "output name " ++ quoted name ++ " is reserved"
  | emptyPipeline pipeline missing =>
    "pipeline " ++ quoted pipeline ++ " must reference at least one " ++ missing
  | missingUrl output => "output " ++ quoted output ++ " requires a url"
  | missingGoogleCloudLogging output =>
    "output " ++ quoted output ++
      " of type googleCloudLogging requires a googleCloudLogging block"
  | componentIdConflict id first second =>
    "component id " ++ quoted id ++ " is used by both " ++ quoted first ++ " and " ++ quoted second
  | secretEnvConflict env first second =>
    "secrets " ++ quoted first ++ " and " ++ quoted second ++ " share environment id " ++ quoted env
  | missingSecret output secret =>
    "output " ++ quoted output ++ " references missing secret " ++ quoted secret
  | missingSecretKey output secret key =>
    "output " ++ quoted output ++ ": secret " ++ quoted secret ++ " is missing key " ++ quoted key
  | invalidSecretValue output key =>
    "output " ++ quoted output ++ ": secret key " ++ quoted key ++ " is not valid UTF-8"
  | templateCycle chain => "cyclic template reference: " ++ String.intercalate " -> " chain
  | nameCollision name =>
    "element name " ++ quoted name ++ " is shared by elements with different content"
  | unknownElement name => "element " ++ quoted name ++ " is not registered"
  | missingField element field => "element " ++ quoted element ++ " has no field " ++ quoted field
  | malformedTemplate detail => "template error: " ++ detail

end Fault

end LogForwarding
