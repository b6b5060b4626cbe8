/-
# Topologies as they are declared

A topology says which inputs are forwarded to which outputs. Here it stands as
it was written down: names are not resolved and nothing has been checked.

Key definitions: `DeclaredPipeline`, `DeclaredOutput`, `Topology`.
-/
import LogForwarding.Output

namespace LogForwarding

/-- A pipeline: some inputs that are forwarded to some outputs. -/
structure DeclaredPipeline where
  /-- Its name; an empty one stands for a name made from its position. -/
  name : String := ""
  /-- The names of its inputs. -/
  inputs : List String := []
  /-- The names of its outputs. -/
  outputs : List String := []
  deriving DecidableEq, Repr

/-- An output with what is known of it. -/
structure DeclaredOutput where
  /-- The name by which pipelines call it. -/
  name : String
  /-- What kind of system it is. -/
  type : OutputType
  /-- Where it is. -/
  url : Option String := none
  /-- The name of the secret with the credentials for it. -/
  secret : Option String := none
  /-- Where in Google Cloud Logging the logs go. -/
  googleCloudLogging : Option GoogleCloudLogging := none
  deriving DecidableEq, Repr

/-- The pipelines and the outputs, in the order of their declaration. -/
structure Topology where
  /-- What is forwarded where. -/
  pipelines : List DeclaredPipeline := []
  /-- What logs can be forwarded to. -/
  outputs : List DeclaredOutput := []
  deriving DecidableEq, Repr

end LogForwarding
