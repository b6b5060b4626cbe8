/-
# Strings in JSON text

A string stands between double quotes. A backslash begins an escape: a letter
for a character, or `u` and four hexadecimal digits for a unit of UTF-16. A
unit from the high half of the surrogates must be followed at once by one from
the low half, and the two are one character; a string that is skipped and not
read may hold them in any order.

Key definitions: `Json.hexUnit`, `Json.escape`, `Json.chars`, `Json.string`,
`Json.skipChars`.
-/
import LogForwarding.Json.Reader

namespace LogForwarding.Json

/-- The value of a hexadecimal digit. -/
def hexValue? (c : Char) : Option Nat :=
  if c.isDigit then some (c.toNat - '0'.toNat)
  else if 'a' ≤ c ∧ c ≤ 'f' then some (c.toNat - 'a'.toNat + 10)
  else if 'A' ≤ c ∧ c ≤ 'F' then some (c.toNat - 'A'.toNat + 10)
  else none

/-- The value of hexadecimal digits, the highest first. -/
def hexNumber? (digits : List Char) : Option Nat :=
  digits.foldlM (fun n c => (hexValue? c).map (16 * n + ·)) 0

/-- Four hexadecimal digits. With fewer than four bytes left the text is too short for them. -/
def hexUnit : Reader Nat := fun s =>
  match s with
  | a :: b :: c :: d :: rest =>
    match hexNumber? [a, b, c, d] with
    | some n => .ok ⟨n, rest, by simp only [List.length_cons]; omega⟩
    | none => .error .malformed
  | _ => if (String.ofList s).utf8ByteSize < 4 then .error .cutShort else .error .malformed

/-- The character that a letter stands for after a backslash. -/
def letterEscape? : Char → Option Char
  | '"' => some '"'
  | '\\' => some '\\'
  | '/' => some '/'
  | 'b' => some '\x08'
  | 'f' => some '\x0c'
  | 'n' => some '\n'
  | 'r' => some '\r'
  | 't' => some '\t'
  | _ => none

/-- The unit is in the high half of the surrogates. -/
def isHighSurrogate (unit : Nat) : Bool := 0xd800 ≤ unit && unit ≤ 0xdbff

/-- The unit is in the low half of the surrogates. -/
def isLowSurrogate (unit : Nat) : Bool := 0xdc00 ≤ unit && unit ≤ 0xdfff

/-- The character that two surrogates make. -/
def surrogatePair (high low : Nat) : Char :=
  Char.ofNat (0x10000 + (high - 0xd800) * 0x400 + (low - 0xdc00))

/-- The low surrogate after a high one, with the backslash and the letter before it. -/
def lowSurrogate : Reader Nat := fun s =>
  match s with
  | '\\' :: 'u' :: rest =>
    match hexUnit rest with
    | .error fault => .error fault
    | .ok r =>
      if isLowSurrogate r.value then .ok (r.widen (by simp only [List.length_cons]; omega))
      else .error .malformed
  | [] | ['\\'] => .error .cutShort
  | _ => .error .malformed

/-- The character of an escape, after its backslash. -/
def escape : Reader Char := fun s =>
  match s with
  | [] => .error .cutShort
  | 'u' :: rest =>
    match hexUnit rest with
    | .error fault => .error fault
    | .ok unit =>
      if isLowSurrogate unit.value then .error .malformed
      else if isHighSurrogate unit.value then
        match lowSurrogate unit.rest with
        | .error fault => .error fault
        | .ok low => .ok ⟨surrogatePair unit.value low.value, low.rest, by
            have := unit.shorter; have := low.shorter; simp only [List.length_cons]; omega⟩
      else .ok ⟨Char.ofNat unit.value, unit.rest, by
        have := unit.shorter; simp only [List.length_cons]; omega⟩
  | c :: rest =>
    match letterEscape? c with
    | some e => .ok ⟨e, rest, by simp⟩
    | none => .error .malformed

/-- The characters of a string, after its opening quote. -/
def chars (s : List Char) : Except ReadFault (Read (List Char) s) :=
  match s with
  | [] => .error .cutShort
  | '"' :: rest => .ok ⟨[], rest, by simp⟩
  | '\\' :: rest =>
    match escape rest with
    | .error fault => .error fault
    | .ok e =>
      match chars e.rest with
      | .error fault => .error fault
      | .ok more => .ok ⟨e.value :: more.value, more.rest, by
          have := e.shorter; have := more.shorter; simp only [List.length_cons]; omega⟩
  | c :: rest =>
    if c.toNat < 0x20 then .error .malformed
    else
      match chars rest with
      | .error fault => .error fault
      | .ok more => .ok ⟨c :: more.value, more.rest, by
          have := more.shorter; simp only [List.length_cons]; omega⟩
termination_by s.length
decreasing_by
  · have := e.shorter; simp only [List.length_cons]; omega
  · simp

/-- A string, after its opening quote. -/
def string : Reader String := fun s => (chars s).map (·.map String.ofList)

/-- Skip an escape, after its backslash. -/
def skipEscape : Reader Unit := fun s =>
  match s with
  | [] => .error .cutShort
  | 'u' :: rest => (hexUnit rest).map fun r => (r.map fun _ => ()).widen (length_le_cons 'u' rest)
  | c :: rest =>
    if (letterEscape? c).isSome then .ok ⟨(), rest, length_lt_cons c rest⟩ else .error .malformed

/-- Skip a string, after its opening quote. -/
def skipChars (s : List Char) : Except ReadFault (Read Unit s) :=
  match s with
  | [] => .error .cutShort
  | '"' :: rest => .ok ⟨(), rest, length_lt_cons '"' rest⟩
  | '\\' :: rest =>
    match skipEscape rest with
    | .error fault => .error fault
    | .ok e => (skipChars e.rest).map (·.widen (Nat.le_of_lt (e.lt_cons '\\')))
  | c :: rest =>
    if c.toNat < 0x20 then .error .malformed
    else (skipChars rest).map (·.widen (length_le_cons c rest))
termination_by s.length
decreasing_by
  · exact e.lt_cons '\\'
  · exact length_lt_cons c rest

end LogForwarding.Json
