/-
# Plans: topologies with every name resolved

A plan is what the configuration is generated from. Its pipelines name inputs
that exist, and outputs by the names under which the plan holds them.

Key definitions: `Pipeline`, `Outputs.list`, `Plan`, `Plan.referenced`.
Key theorems: `Outputs.mem_list`.
-/
import Std.Data.ExtTreeMap
import LogForwarding.Input
import LogForwarding.Output

namespace LogForwarding

/-- A pipeline whose references have been resolved. -/
structure Pipeline where
  /-- Its name. -/
  name : String
  /-- Its component id. -/
  id : String
  /-- The inputs it forwards. -/
  inputs : List Input
  /-- The names of the outputs it forwards them to. -/
  outputs : List String
  deriving DecidableEq, Repr

/-- Outputs by name. -/
abbrev Outputs := Std.ExtTreeMap String Output

/-- The outputs, in increasing order of the names they stand under. -/
def Outputs.list (outputs : Outputs) : List Output := outputs.toList.map Prod.snd

/-- An output is in the list if and only if it stands under some name. -/
theorem Outputs.mem_list {outputs : Outputs} {output : Output} :
    output ∈ outputs.list ↔ ∃ name : String, outputs[name]? = some output := by
  simp [list, Std.ExtTreeMap.mem_toList_iff_getElem?_eq_some]

/-- Pipelines in the order of their declaration, and the outputs that they may name. -/
structure Plan where
  /-- What is forwarded where. -/
  pipelines : List Pipeline
  /-- What logs can be forwarded to. -/
  outputs : Outputs
  deriving DecidableEq

namespace Plan

/-- Add the output called `name` to those found before, unless it is among them or not there. -/
def addReferenced (plan : Plan) (found : List Output) (name : String) : List Output :=
  if found.any (·.name == name) then found
  else
    match plan.outputs[name]? with
    | some output => found ++ [output]
    | none => found

/-- The outputs that some pipeline names, in the order in which they are first named. -/
def referenced (plan : Plan) : List Output :=
  (plan.pipelines.flatMap Pipeline.outputs).foldl plan.addReferenced []

end Plan

end LogForwarding
