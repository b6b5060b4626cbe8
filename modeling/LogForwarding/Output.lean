/-
# Outputs

An output is a place that logs are forwarded to. One output is always there:
the log store of the cluster, which pipelines call `default`.

Key definitions: `OutputType`, `GoogleCloudLogging`, `Output`,
`Output.logStore`.
-/

namespace LogForwarding

/-- What kind of system an output is. -/
inductive OutputType where
  /-- An Elasticsearch cluster. -/
  | elasticsearch
  /-- A Loki server. -/
  | loki
  /-- A server that takes logs by HTTP requests. -/
  | http
  /-- A log of Google Cloud Logging. -/
  | googleCloudLogging
  deriving DecidableEq, Repr

namespace OutputType

/-- Every type of output. -/
def all : List OutputType := [elasticsearch, loki, http, googleCloudLogging]

/-- The name of the type in a topology. -/
def name : OutputType → String
  | elasticsearch => "elasticsearch"
  | loki => "loki"
  | http => "http"
  | googleCloudLogging => "googleCloudLogging"

/-- The type of the given name. -/
def ofName? (name : String) : Option OutputType := all.find? (·.name == name)

/-- The agent's name for a sink of the type. -/
def agentType : OutputType → String
  | elasticsearch => "elasticsearch"
  | loki => "loki"
  | http => "http"
  | googleCloudLogging => "gcp_stackdriver_logs"

/-- An output of the type is reached by a url. -/
def needsUrl : OutputType → Bool
  | elasticsearch | loki | http => true
  | googleCloudLogging => false

/-- A type is found by its own name, and by no other. -/
theorem ofName?_eq_some_iff {name : String} {type : OutputType} :
    ofName? name = some type ↔ type.name = name := by
  constructor
  · intro h
    simpa using List.find?_some h
  · rintro rfl
    cases type <;> decide

end OutputType

/-- Where in Google Cloud Logging the logs go. -/
structure GoogleCloudLogging where
  /-- The project. -/
  projectId : String
  /-- The log in the project. -/
  logId : String := "vector-logs"
  deriving DecidableEq, Repr

/-- An output whose declaration has been checked. -/
structure Output where
  /-- The name by which pipelines call it. -/
  name : String
  /-- Its component id. -/
  id : String
  /-- What kind of system it is. -/
  type : OutputType
  /-- Where it is. -/
  url : Option String
  /-- The secret with the credentials for it. -/
  secret : Option String
  /-- Where in Google Cloud Logging the logs go. -/
  googleCloudLogging : Option GoogleCloudLogging
  deriving DecidableEq, Repr

/-- The name that pipelines use for the log store of the cluster. -/
def defaultOutputName : String := "default"

/-- The namespace that the logging stack runs in. -/
def loggingNamespace : String := "openshift-logging"

/-- The log store of the cluster. The collector has a secret of its own for it. -/
def Output.logStore : Output where
  name := defaultOutputName
  id := defaultOutputName
  type := .elasticsearch
  url := some "https://elasticsearch.openshift-logging.svc:9200"
  secret := some "collector"
  googleCloudLogging := none

end LogForwarding
