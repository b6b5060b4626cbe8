/-
# Sinks: where logs are sent

Each output that some pipeline names becomes one sink. It reads from every
pipeline that names it.

Key definitions: `Plan.sink`, `Plan.sinks`.
-/
import LogForwarding.Component.Credential
import LogForwarding.Plan

namespace LogForwarding

namespace OutputType

/-- The lines of a sink of the type; its credential comes last. -/
def sinkTemplate (type : OutputType) : String := Template.write
  ([.text ("[sinks."), .field "id", .text ("]\n  type = \"" ++ type.agentType ++ "\"\n  inputs = "),
    .field "inputs"] ++ target type ++ [.embed "auth"])
where
  /-- The lines that say where the logs go, and in which form. -/
  target : OutputType → List Segment
    | elasticsearch =>
      [.text "\n  endpoint = ", .field "endpoint",
        .text "\n  index = \"\x7b\x7b log_type \x7d\x7d-write\"\n"]
    | loki =>
      [.text "\n  endpoint = ", .field "endpoint",
        .text ("\n  out_of_order_action = \"accept\"\n  encoding.codec = \"json\"" ++
          "\n  labels.log_type = \"\x7b\x7b log_type \x7d\x7d\"\n")]
    | http =>
      [.text "\n  uri = ", .field "endpoint",
        .text "\n  method = \"post\"\n  encoding.codec = \"json\"\n"]
    | googleCloudLogging =>
      [.text "\n  log_id = ", .field "log_id", .text "\n  project_id = ", .field "project_id",
        .text "\n  resource.type = \"k8s_pod\"\n"]

end OutputType

/-- The fields of the sink that say where the logs go. -/
def Output.setTarget (output : Output) (sink : Element) : Element :=
  match output.type with
  | .elasticsearch | .loki | .http => sink.set "endpoint" (Toml.quote (output.url.getD ""))
  | .googleCloudLogging =>
    let block := output.googleCloudLogging.getD ⟨"", ""⟩
    sink.set "project_id" (Toml.quote block.projectId) |>.set "log_id" (Toml.quote block.logId)

namespace Plan

/-- The ids of the pipelines that name the output, in the order of their declaration. -/
def readers (plan : Plan) (output : Output) : List String :=
  (plan.pipelines.filter (output.name ∈ ·.outputs)).map Pipeline.id

/-- The sink of the output. -/
def sink (plan : Plan) (secrets : Secrets) (settings : Settings) (output : Output) :
    Except Fault Element := do
  let credential ← output.credential secrets
  let part := credential.sinkPart settings output.id (output.caSecret? secrets)
  return (output.setTarget (Element.ofTemplate ("sinks." ++ output.id) output.type.sinkTemplate)
    |>.place .sinks 0
    |>.set "id" output.id
    |>.set "inputs" (Toml.array (plan.readers output))
    |>.embed "auth" part)

/-- The sinks of the outputs that some pipeline names, in the order in which they are first
named. -/
def sinks (plan : Plan) (secrets : Secrets) (settings : Settings) : Except Fault (List Element) :=
  plan.referenced.mapM (plan.sink secrets settings)

end Plan

end LogForwarding
