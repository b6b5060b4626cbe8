/-
# Reading TOML values

`Toml.quote` and `Toml.array` write texts into a document. Here is the other
direction, as the format has it: a basic string stands between double quotes
and holds no raw control character except the tab; a backslash in it begins an
escape, by one of seven letters or by four or eight hexadecimal digits. An
array of such strings stands between brackets, with commas between its items
and blanks wherever they do no harm; a comma may follow the last item.

Each reader takes what the text begins with, and says what is left of it.

Key definitions: `Toml.char?`, `Toml.string?`, `Toml.array?`.
Key theorems: `Toml.content?_of_char?`, `Toml.items?_of_last`,
`Toml.items?_of_next`.
-/
import LogForwarding.Toml

namespace LogForwarding

namespace Toml

/-! ### One character -/

/-- The value of a hexadecimal digit. -/
def hexValue? (c : Char) : Option Nat :=
  if '0' ≤ c ∧ c ≤ '9' then some (c.toNat - '0'.toNat)
  else if 'a' ≤ c ∧ c ≤ 'f' then some (c.toNat - 'a'.toNat + 10)
  else if 'A' ≤ c ∧ c ≤ 'F' then some (c.toNat - 'A'.toNat + 10)
  else none

/-- The character whose code point is written with the digits. -/
def ofHex? (digits : List Char) : Option Char := do
  let values ← digits.mapM hexValue?
  let n := values.foldl (16 * · + ·) 0
  if n.isValidChar then some (Char.ofNat n) else none

/-- The letters that stand for a character after a backslash. -/
def escapeLetters : List (Char × Char) :=
  [('b', '\x08'), ('t', '\t'), ('n', '\n'), ('f', '\x0c'), ('r', '\r'), ('"', '"'), ('\\', '\\')]

/-- `c` stands for itself in a basic string. -/
def isRaw (c : Char) : Bool :=
  c != '"' && c != '\\' && (c == '\t' || 0x20 ≤ c.toNat && c != '\x7f')

/-- The character that the text begins with, raw or escaped, and the text after it. -/
def char? : List Char → Option (Char × List Char)
  | [] => none
  | '\\' :: 'u' :: a :: b :: c :: d :: rest => (ofHex? [a, b, c, d]).map (·, rest)
  | '\\' :: 'U' :: a :: b :: c :: d :: e :: f :: g :: h :: rest =>
    (ofHex? [a, b, c, d, e, f, g, h]).map (·, rest)
  | '\\' :: letter :: rest => (escapeLetters.lookup letter).map (·, rest)
  | c :: rest => if isRaw c then some (c, rest) else none

theorem length_lt_of_char? {cs rest : List Char} {c : Char} (h : char? cs = some (c, rest)) :
    rest.length < cs.length := by
  unfold char? at h
  split at h
  · cases h
  · obtain ⟨_, _, he⟩ := Option.map_eq_some_iff.1 h
    cases he
    simp only [List.length_cons]
    omega
  · obtain ⟨_, _, he⟩ := Option.map_eq_some_iff.1 h
    cases he
    simp only [List.length_cons]
    omega
  · obtain ⟨_, _, he⟩ := Option.map_eq_some_iff.1 h
    cases he
    simp only [List.length_cons]
    omega
  · split at h
    · cases h
      simp
    · cases h

/-! ### A basic string -/

/-- The characters of a basic string up to its closing quote, and the text after the quote. -/
def content? (cs : List Char) : Option (List Char × List Char) :=
  if cs.head? = some '"' then some ([], cs.tail)
  else
    match _h : char? cs with
    | none => none
    | some (c, rest) => (content? rest).map fun (content, after) => (c :: content, after)
termination_by cs.length
decreasing_by exact length_lt_of_char? _h

theorem content?_of_char? {cs rest : List Char} {c : Char} (hq : cs.head? ≠ some '"')
    (h : char? cs = some (c, rest)) :
    content? cs = (content? rest).map fun (content, after) => (c :: content, after) := by
  rw [content?, if_neg hq]
  split
  · simp_all
  · simp_all

theorem length_lt_of_content? {cs content after : List Char}
    (h : content? cs = some (content, after)) : after.length < cs.length := by
  fun_induction content? cs generalizing content with
  | case1 cs hq =>
    obtain ⟨_, rfl⟩ := Prod.mk.inj (Option.some.inj h)
    cases cs with
    | nil => cases hq
    | cons c cs => simp
  | case2 => cases h
  | case3 cs hq c rest hc ih =>
    obtain ⟨⟨tail, _⟩, hr, he⟩ := Option.map_eq_some_iff.1 h
    cases he
    exact Nat.lt_trans (ih hr) (length_lt_of_char? hc)

/-- The text that is written as the basic string `s`, if it is one. -/
def string? (s : String) : Option String :=
  match s.toList with
  | '"' :: cs =>
    match content? cs with
    | some (content, []) => some (String.ofList content)
    | _ => none
  | _ => none

/-! ### An array of basic strings -/

/-- The text without the blanks that it begins with. -/
def skipBlanks (cs : List Char) : List Char := cs.dropWhile fun c => c == ' ' || c == '\t'

theorem length_skipBlanks_le (cs : List Char) : (skipBlanks cs).length ≤ cs.length :=
  (List.dropWhile_sublist _).length_le

/-- The basic string that the text begins with, and the text after it, both without the blanks
before them. -/
def item? (cs : List Char) : Option (String × List Char) :=
  match skipBlanks cs with
  | '"' :: rest =>
    (content? rest).map fun (content, after) => (String.ofList content, skipBlanks after)
  | _ => none

theorem length_lt_of_item? {cs after : List Char} {item : String}
    (h : item? cs = some (item, after)) : after.length < cs.length := by
  unfold item? at h
  split at h
  · rename_i rest hrest
    obtain ⟨⟨content, tail⟩, hc, he⟩ := Option.map_eq_some_iff.1 h
    cases he
    have hle := length_skipBlanks_le cs
    have hle' := length_skipBlanks_le tail
    have hlt := length_lt_of_content? hc
    rw [hrest, List.length_cons] at hle
    omega
  · cases h

/-- The items of an array up to its closing bracket, and the text after the bracket. -/
def items? (cs : List Char) : Option (List String × List Char) :=
  match _h : item? cs with
  | none => if (skipBlanks cs).head? = some ']' then some ([], (skipBlanks cs).tail) else none
  | some (item, ']' :: after) => some ([item], after)
  | some (item, ',' :: after) => (items? after).map fun (items, rest) => (item :: items, rest)
  | some _ => none
termination_by cs.length
decreasing_by
  have hlt := length_lt_of_item? _h
  rw [List.length_cons] at hlt
  omega

/-- The items of the array that is written as `s`, if it is an array of basic strings. -/
def array? (s : String) : Option (List String) :=
  match s.toList with
  | '[' :: cs =>
    match items? cs with
    | some (items, []) => some items
    | _ => none
  | _ => none

theorem items?_of_last {cs after : List Char} {item : String}
    (h : item? cs = some (item, ']' :: after)) : items? cs = some ([item], after) := by
  rw [items?]
  split <;> simp_all

theorem items?_of_next {cs after : List Char} {item : String}
    (h : item? cs = some (item, ',' :: after)) :
    items? cs = (items? after).map fun (items, rest) => (item :: items, rest) := by
  rw [items?]
  split <;> simp_all

end Toml

end LogForwarding
