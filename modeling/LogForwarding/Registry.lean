/-
# The registry of elements

While a document is written, elements are found by name. A registry holds at
most one element of a name: adding an equal one again changes nothing, and
adding a different one is refused.

Key definitions: `Registry`, `Registry.insert`, `Registry.ofRoots`.
Key theorems: `Registry.name_of_get?`, `Registry.get?_insert`.
-/
import LogForwarding.Element
import LogForwarding.Fault

namespace LogForwarding

/-- Elements by name. -/
structure Registry where
  /-- The element of each name. -/
  elements : Std.ExtTreeMap String Element
  /-- Every element stands under its own name. -/
  named : ∀ {name : String} {element : Element},
    elements[name]? = some element → element.name = name

namespace Registry

/-- The registry with no element. -/
def empty : Registry := ⟨∅, by simp⟩

instance : EmptyCollection Registry := ⟨empty⟩

/-- The element of the name, if there is one. -/
def get? (r : Registry) (name : String) : Option Element := r.elements[name]?

/-- How many elements there are. -/
def size (r : Registry) : Nat := r.elements.size

/-- There is no element. -/
def isEmpty (r : Registry) : Bool := r.elements.isEmpty

/-- The names, in increasing order. -/
def names (r : Registry) : List String := r.elements.keys

/-- An element is found under its own name only. -/
theorem name_of_get? {r : Registry} {name : String} {element : Element}
    (h : r.get? name = some element) : element.name = name := r.named h

/-- A name is among the names if and only if an element is found under it. -/
theorem mem_names {r : Registry} {name : String} :
    name ∈ r.names ↔ (r.get? name).isSome := by
  simp [names, get?]

/-- Add an element. A different one of the same name is a collision. -/
def insert (r : Registry) (e : Element) : Except Fault Registry :=
  match r.elements[e.name]? with
  | some kept => if kept = e then .ok r else .error (.nameCollision e.name)
  | none => .ok ⟨r.elements.insert e.name e, by
      intro name element h
      rw [Std.ExtTreeMap.getElem?_insert] at h
      split at h
      · cases h
        exact Std.LawfulEqCmp.compare_eq_iff_eq.1 ‹_›
      · exact r.named h⟩

@[simp] theorem get?_empty (name : String) : (∅ : Registry).get? name = none :=
  Std.ExtTreeMap.getElem?_empty

/-- After an insertion the element is found under its name, and all else as before. -/
theorem get?_insert {r r' : Registry} {e : Element} (h : r.insert e = .ok r') (name : String) :
    r'.get? name = if e.name = name then some e else r.get? name := by
  unfold insert at h
  split at h
  · rename_i kept hkept
    split at h
    · cases h
      split
      · subst_vars; exact hkept
      · rfl
    · cases h
  · cases h
    simp [get?, Std.ExtTreeMap.getElem?_insert]

/-- The registry of the roots and all that they embed at any depth. -/
def ofRoots (roots : List Element) : Except Fault Registry :=
  (Element.treeList roots).foldlM insert ∅

end Registry

end LogForwarding
