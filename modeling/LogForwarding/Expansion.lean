/-
# Expansion of registered elements

The text of an element is its template with every placeholder replaced: a
field by its value, and an embedded element by its own text without the
newlines it ends in. Elements may embed each other in any way, so the
expansion keeps the names that are open, from the innermost outwards: to meet
an open name again is a cycle. A finished text is kept, and an element that
many others embed is expanded once.

The expansion ends because each element it opens is registered and not open
yet.

Key definitions: `Registry.expand`, `Registry.fill`, `Registry.expandAll`,
`Registry.text`, `Registry.document`, `document`.
-/
import LogForwarding.Registry
import LogForwarding.Text.Trim

namespace LogForwarding

/-- Finished texts, by the name of the element. -/
abbrev Texts := Std.ExtTreeMap String String

/-- The value of the field `key`; without one the element cannot be expanded. -/
def Element.value (e : Element) (key : String) : Except Fault String :=
  match e.get? key with
  | some value => .ok value
  | none => .error (.missingField e.name key)

namespace Registry

/-- How many registered elements are not open. -/
def unopened (r : Registry) (opened : List String) : Nat := r.names.countP (· ∉ opened)

/-- To open a registered name that is not open leaves fewer that are not. -/
theorem unopened_cons_lt {r : Registry} {opened : List String} {name : String}
    (hr : name ∈ r.names) (ho : name ∉ opened) :
    r.unopened (name :: opened) < r.unopened opened := by
  unfold unopened
  generalize r.names = names at hr ⊢
  induction names with
  | nil => cases hr
  | cons first rest ih =>
    have hle : rest.countP (· ∉ name :: opened) ≤ rest.countP (· ∉ opened) :=
      List.countP_mono_left fun x _ => by simp
    rw [List.countP_cons, List.countP_cons]
    rcases List.mem_cons.1 hr with rfl | hr
    · simpa [ho] using Nat.lt_succ_of_le hle
    · have hlt := ih hr
      by_cases hf : first ∈ opened
      · simpa [hf] using hlt
      · by_cases hn : first = name <;> simp [hf, hn] at hlt ⊢ <;> omega

mutual

/-- The text of the element `name`, and the finished texts with it. -/
def expand (r : Registry) (opened : List String) (texts : Texts) (name : String) :
    Except Fault (String × Texts) :=
  match texts[name]? with
  | some text => .ok (text, texts)
  | none =>
    if _ho : name ∈ opened then .error (.templateCycle (name :: opened).reverse)
    else
      match _hr : r.get? name with
      | none => .error (.unknownElement name)
      | some element =>
        match r.fill (name :: opened) texts element element.segments with
        | .error fault => .error fault
        | .ok (text, texts) => .ok (text, texts.insert name text)
termination_by (r.unopened opened, 0)
decreasing_by exact Prod.Lex.left _ _ (unopened_cons_lt (mem_names.2 (by simp [_hr])) _ho)

/-- The text of some segments of the template of `element`, from left to right. -/
def fill (r : Registry) (opened : List String) (texts : Texts) (element : Element) :
    List Segment → Except Fault (String × Texts)
  | [] => .ok ("", texts)
  | .text literal :: rest => do
    let (text, texts) ← r.fill opened texts element rest
    return (literal ++ text, texts)
  | .field key :: rest => do
    let value ← element.value key
    let (text, texts) ← r.fill opened texts element rest
    return (value ++ text, texts)
  | .embed slot :: rest => do
    let name ← element.value slot
    let (inner, texts) ← r.expand opened texts name
    let (text, texts) ← r.fill opened texts element rest
    return (Text.trimEnd '\n' inner ++ text, texts)
termination_by segments => (r.unopened opened, segments.length)

end

/-- The texts of the elements `names`, in order; what one of them finished serves the next. -/
def expandAll (r : Registry) : Texts → List String → Except Fault (List String)
  | _, [] => .ok []
  | texts, name :: rest => do
    let (text, texts) ← r.expand [] texts name
    let others ← r.expandAll texts rest
    return text :: others

/-- The text of the element `name`. -/
def text (r : Registry) (name : String) : Except Fault String :=
  (r.expand [] ∅ name).map Prod.fst

end Registry

/-- The document that consists of `texts`: without the newlines at its ends and the texts that
are then empty, with one blank line between any two of them and one newline at the end. -/
def joinBlocks (texts : List String) : String :=
  match (texts.map (Text.trim '\n')).filter (· ≠ "") with
  | [] => ""
  | blocks => String.intercalate "\n\n" blocks ++ "\n"

/-- The document of the elements `names`, in order. -/
def Registry.document (r : Registry) (names : List String) : Except Fault String :=
  (r.expandAll ∅ names).map joinBlocks

/-- The document of `roots`, in order, with what they embed. -/
def document (roots : List Element) : Except Fault String := do
  let registry ← Registry.ofRoots roots
  registry.document (roots.map Element.name)

end LogForwarding
