/-
# The configuration of a topology

The elements of a configuration are the sources and transforms of each
pipeline and the sinks of the outputs that pipelines name, assembled; the
configuration is the document of these elements.

Generation reads no files and keeps no state: equal topologies, secrets and
settings have equal configurations.

Key definitions: `Plan.elements`, `Topology.configuration`.
-/
import LogForwarding.Component.Sink
import LogForwarding.Component.Source
import LogForwarding.Component.Transform
import LogForwarding.Expansion
import LogForwarding.Resolution

namespace LogForwarding

/-- The elements of the configuration, in the order of the document. -/
def Plan.elements (plan : Plan) (secrets : Secrets) (settings : Settings) :
    Except Fault (List Element) := do
  let sinks ← plan.sinks secrets settings
  arrange
    (plan.pipelines.flatMap (fun p => [p.sources settings, p.transforms]) ++ [sinks])

/-- The configuration of a topology. -/
def Topology.configuration (t : Topology) (secrets : Secrets) (settings : Settings) :
    Except Fault String := do
  let plan ← t.resolve
  let elements ← plan.elements secrets settings
  document elements

end LogForwarding
