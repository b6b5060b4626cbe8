/-
# Assembly of element sequences

Pipelines and outputs contribute elements independently, and shared ones are
contributed several times. Merging keeps the first element of each name and
refuses a different one of that name; assembly then orders what is left by
section and rank, and keeps the order of first contribution where these are
equal.

Key definitions: `keepOnce`, `merge`, `Element.precedes`, `arrange`.
-/
import LogForwarding.Element
import LogForwarding.Fault

namespace LogForwarding

/-- Add `e` at the end of `kept`, unless an equal element is there already. -/
def keepOnce (kept : List Element) (e : Element) : Except Fault (List Element) :=
  match kept.find? (·.name == e.name) with
  | none => .ok (kept ++ [e])
  | some first => if first = e then .ok kept else .error (.nameCollision e.name)

/-- The elements of all sequences in order, each name once. -/
def merge (sequences : List (List Element)) : Except Fault (List Element) :=
  sequences.flatten.foldlM keepOnce []

/-- `a` may stand before `b`: its section comes first, or the section is the same and its rank
is not higher. -/
def Element.precedes (a b : Element) : Bool :=
  a.part.position < b.part.position || (a.part.position == b.part.position && a.rank ≤ b.rank)

/-- The elements of all sequences, each name once, ordered by section and rank. -/
def arrange (sequences : List (List Element)) : Except Fault (List Element) :=
  (merge sequences).map (·.mergeSort Element.precedes)

end LogForwarding
