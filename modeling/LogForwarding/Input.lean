/-
# Inputs of pipelines and the logs on a node

A pipeline selects logs by three reserved names. Each name stands for logs
that are kept on the node; the logs of containers serve two of them, because
those of the platform and those of applications lie in the same files and are
told apart by namespace later.

Key definitions: `NodeLog`, `Input`, `Input.logs`, `builtinIds`.
-/

namespace LogForwarding

/-- A place on the node where logs are kept. -/
inductive NodeLog where
  /-- The files of all containers. -/
  | container
  /-- The journal. -/
  | journal
  /-- The audit log of the host. -/
  | hostAudit
  /-- The audit log of the Kubernetes API server. -/
  | kubernetesAudit
  /-- The audit log of the OpenShift API server. -/
  | openshiftAudit
  /-- The audit log of the network. -/
  | ovnAudit
  deriving DecidableEq, Repr

namespace NodeLog

/-- Every log, in the order in which the document reads them. -/
def all : List NodeLog :=
  [container, journal, hostAudit, kubernetesAudit, openshiftAudit, ovnAudit]

/-- The component id of the source that reads the log. -/
def id : NodeLog → String
  | container => "container_logs"
  | journal => "journal_logs"
  | hostAudit => "host_audit_logs"
  | kubernetesAudit => "k8s_audit_logs"
  | openshiftAudit => "openshift_audit_logs"
  | ovnAudit => "ovn_audit_logs"

/-- The place of the log among the sources. -/
def rank : NodeLog → Nat
  | container => 0
  | journal => 1
  | hostAudit => 2
  | kubernetesAudit => 3
  | openshiftAudit => 4
  | ovnAudit => 5

/-- The file of an audit log; the other logs are not files of a fixed name. -/
def auditFile? : NodeLog → Option String
  | container | journal => none
  | hostAudit => some "/var/log/audit/audit.log"
  | kubernetesAudit => some "/var/log/kube-apiserver/audit.log"
  | openshiftAudit => some "/var/log/oauth-apiserver.audit.log"
  | ovnAudit => some "/var/log/ovn/acl-audit-log.log"

end NodeLog

/-- An input that a pipeline may name. -/
inductive Input where
  /-- The logs of user applications. -/
  | application
  /-- The logs of the platform and of the node. -/
  | infrastructure
  /-- The audit logs. -/
  | audit
  deriving DecidableEq, Repr

namespace Input

/-- Every input, in order of rank. -/
def all : List Input := [application, infrastructure, audit]

/-- The reserved name of the input. -/
def name : Input → String
  | application => "application"
  | infrastructure => "infrastructure"
  | audit => "audit"

/-- The place of the input among the inputs. -/
def rank : Input → Nat
  | application => 0
  | infrastructure => 1
  | audit => 2

/-- The input of the given name. -/
def ofName? (name : String) : Option Input := all.find? (·.name == name)

/-- The logs that the input stands for, in order of rank. -/
def logs : Input → List NodeLog
  | application => [.container]
  | infrastructure => [.container, .journal]
  | audit => [.hostAudit, .kubernetesAudit, .openshiftAudit, .ovnAudit]

/-- The input takes a part of the container logs. -/
def usesContainers (input : Input) : Bool := NodeLog.container ∈ input.logs

/-- An input is found by its own name, and by no other. -/
theorem ofName?_eq_some_iff {name : String} {input : Input} :
    ofName? name = some input ↔ input.name = name := by
  constructor
  · intro h
    simpa using List.find?_some h
  · rintro rfl
    cases input <;> decide

end Input

/-- The component id of the transform that splits the container logs by namespace. -/
def routeId : String := "route_container_logs"

/-- The component ids that every configuration keeps for itself. -/
def builtinIds : List String := NodeLog.all.map NodeLog.id ++ [routeId] ++ Input.all.map Input.name

end LogForwarding
