/-
# Templates of configuration text

A template is text with placeholders: two opening braces, a point or an angle
bracket, a key and two closing braces. The point asks for the value of a
field, the bracket for the text of the element that a field names. A key is an
ASCII letter or underscore, then ASCII letters, digits and underscores. All
else is literal, in particular the agent's own event templating, which has
blanks inside its braces.

`Template.segments` reads a template; `Template.write` is the other direction,
and the templates of this library are written with it.

Key definitions: `Segment`, `Template.write`, `Template.placeholder?`,
`Template.segments`.
Key theorems: `Template.write_append`, `Template.length_lt_of_placeholder?`.
-/

namespace LogForwarding

/-- A piece of a template. -/
inductive Segment where
  /-- Text that stands as it is. -/
  | text (literal : String)
  /-- The value of the field `key`. -/
  | field (key : String)
  /-- The text of the element named by the field `slot`. -/
  | embed (slot : String)
  deriving DecidableEq, Repr

/-- How a segment is written in a template. -/
def Segment.write : Segment → String
  | text literal => literal
  | field key => "\x7b\x7b." ++ key ++ "\x7d\x7d"
  | embed slot => "\x7b\x7b>" ++ slot ++ "\x7d\x7d"

namespace Template

/-- The template that consists of the segments, in order. -/
def write : List Segment → String
  | [] => ""
  | segment :: rest => segment.write ++ write rest

/-- Templates are written one after the other. -/
theorem write_append (as bs : List Segment) : write (as ++ bs) = write as ++ write bs := by
  induction as with
  | nil => simp [write]
  | cons a as ih => simp [write, ih, String.append_assoc]

/-- `c` may begin a key. -/
def isKeyStart (c : Char) : Bool := c.isAlpha || c == '_'

/-- `c` may stand in a key after its first character. -/
def isKeyChar (c : Char) : Bool := c.isAlphanum || c == '_'

/-- The placeholder with the given sign and key. -/
def ofSign? (sign : Char) (key : String) : Option Segment :=
  if sign = '.' then some (.field key) else if sign = '>' then some (.embed key) else none

/-- The placeholder that the text begins with, and the text after it. -/
def placeholder? : List Char → Option (Segment × List Char)
  | '\x7b' :: '\x7b' :: sign :: first :: rest =>
    if isKeyStart first then
      match rest.dropWhile isKeyChar with
      | '\x7d' :: '\x7d' :: after =>
        (ofSign? sign (String.ofList (first :: rest.takeWhile isKeyChar))).map (·, after)
      | _ => none
    else none
  | _ => none

/-- A placeholder takes at least one character. -/
theorem length_lt_of_placeholder? {cs after : List Char} {segment : Segment}
    (h : placeholder? cs = some (segment, after)) : after.length < cs.length := by
  unfold placeholder? at h
  split at h
  · rename_i sign first rest
    split at h
    · split at h
      · rename_i tail hdrop
        obtain ⟨_, _, he⟩ := Option.map_eq_some_iff.1 h
        cases he
        have hle := (List.dropWhile_sublist (p := isKeyChar) (l := rest)).length_le
        simp only [hdrop, List.length_cons] at hle ⊢
        omega
      · cases h
    · cases h
  · cases h

/-- Put a literal character in front: it joins a text that comes first. -/
def consText (c : Char) : List Segment → List Segment
  | .text literal :: rest => .text (String.singleton c ++ literal) :: rest
  | segments => .text (String.singleton c) :: segments

/-- The segments of a text: a placeholder wherever one begins, and literal text between them. -/
def scan (cs : List Char) : List Segment :=
  match _h : placeholder? cs with
  | some (segment, after) => segment :: scan after
  | none =>
    match cs with
    | [] => []
    | c :: rest => consText c (scan rest)
termination_by cs.length
decreasing_by
  · exact length_lt_of_placeholder? _h
  · simp

/-- The segments of a template, in order. -/
def segments (template : String) : List Segment := scan template.toList

end Template

end LogForwarding
