/-
# Sources: where the agent reads logs

Each log on the node that some input stands for is read by one source. The
containers of the logging stack itself are left out, or the collector would
read its own output.

Key definitions: `stackExclusions`, `NodeLog.source`, `Pipeline.sources`,
`Plan.sources`.
-/
import LogForwarding.Arrangement
import LogForwarding.Plan
import LogForwarding.Settings
import LogForwarding.Toml

namespace LogForwarding

/-- The names that the pods of the logging stack begin with. -/
def stackPods : List String := ["vector", "elasticsearch", "kibana"]

/-- Patterns for the container logs of the logging stack. -/
def stackExclusions : List String :=
  stackPods.map fun pod =>
    "/var/log/containers/" ++ pod ++ "-*_" ++ loggingNamespace ++ "_*.log"

namespace NodeLog

/-- The source of the container logs. -/
def containerTemplate : String := Template.write
  [.text "# Logs from containers (including openshift containers)\n[sources.", .field "id",
    .text ("]\n  type = \"kubernetes_logs\"\n  auto_partial_merge = true" ++
      "\n  exclude_paths_glob_patterns = "),
    .field "exclude_paths", .text "\n"]

/-- The source of the journal. -/
def journalTemplate : String := Template.write
  [.text "# Logs from linux journal\n[sources.", .field "id", .text "]\n  type = \"journald\"\n"]

/-- The source of an audit log. -/
def auditTemplate : String := Template.write
  [.text "# Logs from ", .field "desc", .text "\n[sources.", .field "id",
    .text "]\n  type = \"file\"\n  ignore_older_secs = ", .field "ignore_older_secs",
    .text "\n  include = ", .field "include", .text "\n"]

/-- The source of an audit log, described in words. -/
def auditSource (settings : Settings) (log : NodeLog) (description : String) : Element :=
  Element.ofTemplate ("sources." ++ log.id) auditTemplate
    |>.set "desc" description
    |>.set "ignore_older_secs" (toString settings.auditIgnoreOlderSecs)
    |>.set "include" (Toml.array log.auditFile?.toList)

/-- The lines of the source, without its place and id. -/
def sourceBody (settings : Settings) (log : NodeLog) : Element :=
  match log with
  | container =>
    Element.ofTemplate ("sources." ++ log.id) containerTemplate
      |>.set "exclude_paths" (Toml.array stackExclusions)
  | journal => Element.ofTemplate ("sources." ++ log.id) journalTemplate
  | hostAudit => auditSource settings log "host audit"
  | kubernetesAudit => auditSource settings log "kubernetes audit"
  | openshiftAudit => auditSource settings log "openshift audit"
  | ovnAudit => auditSource settings log "ovn audit"

/-- The source that reads the log. -/
def source (settings : Settings) (log : NodeLog) : Element :=
  log.sourceBody settings
    |>.place .sources log.rank
    |>.set "id" log.id

end NodeLog

/-- The logs that the pipeline needs, each once and in order of rank. -/
def Pipeline.logs (p : Pipeline) : List NodeLog :=
  NodeLog.all.filter fun log => p.inputs.any (log ∈ ·.logs)

/-- The sources that the pipeline needs. -/
def Pipeline.sources (settings : Settings) (p : Pipeline) : List Element :=
  p.logs.map (NodeLog.source settings)

/-- The sources that some pipeline needs, each once and in order of rank. -/
def Plan.sources (settings : Settings) (plan : Plan) : Except Fault (List Element) :=
  arrange (plan.pipelines.map (Pipeline.sources settings))

end LogForwarding
