/-
# Readers of JSON text

A reader takes a value from the beginning of a text, blanks before it
included, and gives the rest of the text back. The rest is shorter than the
text, and that is why reading ends.

Key definitions: `Json.Read`, `Json.Left`, `Json.Reader`, `Json.skipBlanks`, `Json.word`,
`Json.colon`, `Json.Reader.parse`.
-/
import LogForwarding.Json.Fault

namespace LogForwarding.Json

/-- A value that was read from the beginning of `s`. -/
structure Read (α : Type) (s : List Char) where
  /-- The value. -/
  value : α
  /-- The text after it. -/
  rest : List Char
  /-- Something was read. -/
  shorter : rest.length < s.length

/-- What is left of `s` after something that may also be absent. -/
abbrev Left (s : List Char) : Type := { rest : List Char // rest.length ≤ s.length }

/-- All of `s` is left. -/
def Left.all (s : List Char) : Left s := ⟨s, Nat.le_refl s.length⟩

/-- What reads a value of type `α`. -/
abbrev Reader (α : Type) : Type := (s : List Char) → Except ReadFault (Read α s)

namespace Read

/-- The value and the rest, seen as read from a text that is at least as long. -/
def widen {α : Type} {s t : List Char} (r : Read α s) (h : s.length ≤ t.length) : Read α t :=
  ⟨r.value, r.rest, Nat.lt_of_lt_of_le r.shorter h⟩

/-- Another value in place of the one that was read. -/
def map {α β : Type} {s : List Char} (f : α → β) (r : Read α s) : Read β s :=
  ⟨f r.value, r.rest, r.shorter⟩

/-- A text with one character more in front leaves no less unread. -/
theorem lt_cons {α : Type} {s : List Char} (r : Read α s) (c : Char) :
    r.rest.length < (c :: s).length := Nat.lt_succ_of_lt r.shorter

end Read

/-- A text is shorter without its first character. -/
theorem length_lt_cons (c : Char) (rest : List Char) : rest.length < (c :: rest).length :=
  Nat.lt_succ_self rest.length

theorem length_le_cons (c : Char) (rest : List Char) : rest.length ≤ (c :: rest).length :=
  Nat.le_succ rest.length

/-- The blanks of JSON. -/
def isBlank (c : Char) : Bool := c == ' ' || c == '\n' || c == '\t' || c == '\r'

/-- The text without the blanks that it begins with. -/
def skipBlanks (s : List Char) : List Char := s.dropWhile isBlank

/-- Blanks are skipped, not added. -/
theorem length_skipBlanks_le (s : List Char) : (skipBlanks s).length ≤ s.length :=
  (List.dropWhile_sublist isBlank).length_le

/-- What follows the first character that is no blank is shorter than the text. -/
theorem lt_of_skipBlanks {s rest : List Char} {c : Char} (h : skipBlanks s = c :: rest) :
    rest.length < s.length := by
  have := length_skipBlanks_le s
  rw [h] at this
  exact this

/-- The text after the given characters, which must come first. -/
def word : List Char → List Char → Except ReadFault (List Char)
  | [], s => .ok s
  | _ :: _, [] => .error .cutShort
  | w :: ws, c :: s => if c = w then word ws s else .error .malformed

/-- What follows a word is not longer than the text. -/
theorem length_le_of_word {ws s rest : List Char} (h : word ws s = .ok rest) :
    rest.length ≤ s.length := by
  induction ws generalizing s with
  | nil => cases h; exact Nat.le_refl _
  | cons w ws ih =>
    cases s with
    | nil => cases h
    | cons c s =>
      simp only [word] at h
      split at h
      · exact Nat.le_succ_of_le (ih h)
      · cases h

/-- A colon, which must come first. -/
def colon : Reader Unit := fun s =>
  match h : skipBlanks s with
  | [] => .error .cutShort
  | ':' :: rest => .ok ⟨(), rest, lt_of_skipBlanks h⟩
  | _ :: _ => .error .malformed

/-- The value of a text that holds it and nothing else but blanks. -/
def Reader.parse {α : Type} (read : Reader α) (text : String) : Except ReadFault α :=
  match read text.toList with
  | .error fault => .error fault
  | .ok r =>
    match skipBlanks r.rest with
    | [] => .ok r.value
    | _ :: _ => .error .malformed

end LogForwarding.Json
