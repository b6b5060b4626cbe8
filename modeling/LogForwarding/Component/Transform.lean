/-
# Transforms: how logs are routed and marked

The container logs are split by namespace into those of applications and those
of the platform. Each input is marked with its name as the type of log. Each
pipeline has one transform that collects its inputs and marks them with the
pipeline; its sinks read from that.

Key definitions: `route`, `Input.marking`, `Pipeline.collector`,
`Pipeline.transforms`.
-/
import LogForwarding.Element
import LogForwarding.Plan
import LogForwarding.Toml

namespace LogForwarding

/-- The agent's condition for a namespace of the platform. -/
def platformCondition : String :=
  "(starts_with!(.kubernetes.pod_namespace,\"kube\")) || " ++
    "(starts_with!(.kubernetes.pod_namespace,\"openshift\")) || " ++
    "(.kubernetes.pod_namespace == \"default\")"

/-- The transform that splits the container logs. -/
def routeTemplate : String := Template.write
  [.text "[transforms.", .field "id", .text "]\n  type = \"route\"\n  inputs = ", .field "inputs",
    .text "\n  route.app = '!(", .field "infra_condition", .text ")'\n  route.infra = '",
    .field "infra_condition", .text "'\n"]

/-- The transform that marks an input with its type. -/
def markingTemplate : String := Template.write
  [.text "# Set log_type to ", .field "log_type", .text "\n[transforms.", .field "id",
    .text "]\n  type = \"remap\"\n  inputs = ", .field "inputs",
    .text "\n  source = '''\n    .log_type = ", .field "log_type", .text "\n  '''\n"]

/-- The transform that collects the inputs of a pipeline. -/
def collectorTemplate : String := Template.write
  [.text "[transforms.", .field "id", .text "]\n  type = \"remap\"\n  inputs = ", .field "inputs",
    .text "\n  source = '''\n    .pipeline_name = \"", .field "id", .text "\"\n  '''\n"]

/-- The rank of the transforms of pipelines, after those that pipelines share. -/
def collectorRank : Nat := 10

/-- The transform that splits the container logs. -/
def route : Element :=
  Element.ofTemplate ("transforms." ++ routeId) routeTemplate
    |>.place .transforms 0
    |>.set "id" routeId
    |>.set "inputs" (Toml.array [NodeLog.container.id])
    |>.set "infra_condition" platformCondition

namespace Input

/-- The components whose logs belong to the input. -/
def feeds : Input → List String
  | application => [routeId ++ ".app"]
  | infrastructure => [routeId ++ ".infra", NodeLog.journal.id]
  | audit => audit.logs.map NodeLog.id

/-- The transform that marks the logs of the input. -/
def marking (input : Input) : Element :=
  Element.ofTemplate ("transforms." ++ input.name) markingTemplate
    |>.place .transforms (1 + input.rank)
    |>.set "id" input.name
    |>.set "inputs" (Toml.array input.feeds)
    |>.set "log_type" (Toml.quote input.name)

end Input

namespace Pipeline

/-- The transform that collects the inputs of the pipeline, in the order of their declaration. -/
def collector (p : Pipeline) : Element :=
  Element.ofTemplate ("transforms." ++ p.id) collectorTemplate
    |>.place .transforms collectorRank
    |>.set "id" p.id
    |>.set "inputs" (Toml.array (p.inputs.map Input.name))

/-- The transforms that the pipeline needs: the split of the container logs if one of its inputs
uses it, the marking of each input in order of rank, and the pipeline's own. -/
def transforms (p : Pipeline) : List Element :=
  (if p.inputs.any Input.usesContainers then [route] else []) ++
    (p.inputs.mergeSort (·.rank ≤ ·.rank)).map Input.marking ++ [p.collector]

end Pipeline

end LogForwarding
