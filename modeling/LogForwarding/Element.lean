/-
# Elements of the configuration

An element is a named template with values for its placeholders and the
elements that it embeds. Its name is its identity: two elements of one name
must be equal in every part. An element is put into one of the sections of the
document, or is a fragment that is only ever embedded; its rank orders it
within its section.

Key definitions: `Section`, `Element`, `Element.set`, `Element.embed`,
`Element.get?`, `Element.tree`.
Key theorems: `Section.position_lt_iff`, `Element.get?_set`,
`Element.get?_embed`, `Element.tree_eq_cons`.
-/
import Std.Data.ExtTreeMap
import LogForwarding.Template

namespace LogForwarding

/-- The sections of the document, in the order in which they are written. -/
inductive Section where
  /-- Where logs are read from. -/
  | sources
  /-- How they are routed and marked. -/
  | transforms
  /-- Where they are sent. -/
  | sinks
  /-- No section of its own. -/
  | fragment
  deriving DecidableEq, Repr

/-- The sections that the document is made of, in order. -/
def Section.order : List Section := [.sources, .transforms, .sinks]

/-- The place of a section in the document; fragments come last. -/
def Section.position (part : Section) : Nat := order.idxOf part

/-- Of two sections, the one that is earlier in this list has the smaller place. -/
theorem Section.position_lt_iff {p q : Section} :
    p.position < q.position ↔ [p, q].Sublist [.sources, .transforms, .sinks, .fragment] := by
  cases p <;> cases q <;> decide

/-- No two sections share a place. -/
theorem Section.eq_of_position_eq {p q : Section} (h : p.position = q.position) : p = q := by
  revert h
  cases p <;> cases q <;> decide

/-- Values by key. -/
abbrev Fields := Std.ExtTreeMap String String

/-- A piece of configuration. -/
structure Element where
  /-- The name that identifies it. -/
  name : String
  /-- The section it stands in. -/
  part : Section
  /-- Its place within the section. -/
  rank : Nat
  /-- Its text, with placeholders. -/
  template : String
  /-- The values of its placeholders. -/
  fields : Fields
  /-- The elements it embeds, in the order in which they were added. -/
  embeds : List Element

namespace Element

mutual

/-- Equality of elements is decided part by part, at every depth. -/
def decideEq : (a b : Element) → Decidable (a = b)
  | ⟨name, part, rank, template, fields, embeds⟩,
    ⟨name', part', rank', template', fields', embeds'⟩ =>
    if h : name = name' ∧ part = part' ∧ rank = rank' ∧ template = template' ∧ fields = fields' then
      match decideEqList embeds embeds' with
      | isTrue hs => isTrue (by obtain ⟨rfl, rfl, rfl, rfl, rfl⟩ := h; rw [hs])
      | isFalse hs => isFalse fun he => hs (by injection he)
    else isFalse fun he => h (by injection he; exact ⟨‹_›, ‹_›, ‹_›, ‹_›, ‹_›⟩)

/-- Equality of lists of elements. -/
def decideEqList : (as bs : List Element) → Decidable (as = bs)
  | [], [] => isTrue rfl
  | [], _ :: _ => isFalse (by simp)
  | _ :: _, [] => isFalse (by simp)
  | a :: as, b :: bs =>
    match decideEq a b with
    | isFalse h => isFalse fun he => h (by injection he)
    | isTrue h =>
      match decideEqList as bs with
      | isTrue hs => isTrue (by rw [h, hs])
      | isFalse hs => isFalse fun he => hs (by injection he)

end

instance : DecidableEq Element := decideEq

/-- A fragment with no fields. -/
def ofTemplate (name template : String) : Element := ⟨name, .fragment, 0, template, ∅, []⟩

instance : Inhabited Element := ⟨ofTemplate "" ""⟩

/-- The element, put into a section with a rank. -/
def place (e : Element) (part : Section) (rank : Nat) : Element := { e with part, rank }

/-- The element with `value` for the field `key`. -/
def set (e : Element) (key value : String) : Element :=
  { e with fields := e.fields.insert key value }

/-- The element with `child` embedded, and its name in the field `slot`. -/
def embed (e : Element) (slot : String) (child : Element) : Element :=
  { e with fields := e.fields.insert slot child.name, embeds := e.embeds ++ [child] }

/-- The value of the field `key`, if it is set. -/
def get? (e : Element) (key : String) : Option String := e.fields[key]?

@[simp] theorem name_place (e : Element) (part : Section) (rank : Nat) :
    (e.place part rank).name = e.name := rfl

@[simp] theorem name_set (e : Element) (key value : String) : (e.set key value).name = e.name := rfl

@[simp] theorem name_embed (e : Element) (slot : String) (child : Element) :
    (e.embed slot child).name = e.name := rfl

/-- Setting a field changes this field only. -/
theorem get?_set (e : Element) (key value k : String) :
    (e.set key value).get? k = if key = k then some value else e.get? k := by
  simp [get?, set, Std.ExtTreeMap.getElem?_insert]

/-- Embedding an element puts its name into the slot and changes no other field. -/
theorem get?_embed (e : Element) (slot : String) (child : Element) (k : String) :
    (e.embed slot child).get? k = if slot = k then some child.name else e.get? k := by
  simp [get?, embed, Std.ExtTreeMap.getElem?_insert]

/-- The segments of the element's template. -/
def segments (e : Element) : List Segment := Template.segments e.template

mutual

/-- The element and all that it embeds at any depth, each before what it embeds. -/
def tree : Element → List Element
  | e@⟨_, _, _, _, _, embeds⟩ => e :: treeList embeds

/-- The trees of several elements, in order. -/
def treeList : List Element → List Element
  | [] => []
  | e :: es => tree e ++ treeList es

end

/-- The trees of several elements are the trees of each, one after the other. -/
theorem treeList_eq_flatMap (es : List Element) : treeList es = es.flatMap tree := by
  induction es with
  | nil => rfl
  | cons e es ih => simp [treeList, ih]

/-- A tree begins with its root. -/
theorem tree_eq_cons (e : Element) : e.tree = e :: e.embeds.flatMap tree := by
  cases e
  simp [tree, treeList_eq_flatMap]

end Element

end LogForwarding
