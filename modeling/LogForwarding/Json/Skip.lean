/-
# Skipping JSON values

The value of an unknown member is not read, but it must be well formed. A
number may be out of range and a string may hold surrogates in any order;
arrays and objects may lie in each other to any depth.

Key definitions: `Json.skipValue`, `Json.skipElements`, `Json.skipMembers`.
-/
import LogForwarding.Json.Number
import LogForwarding.Json.Text

namespace LogForwarding.Json

/-- Skip a word whose first letter is known and whose other letters are given. -/
def skipWord (letters : List Char) : (s : List Char) → Except ReadFault (Read Unit s)
  | [] => .error .cutShort
  | _ :: rest =>
    match h : word letters rest with
    | .error fault => .error fault
    | .ok after => .ok ⟨(), after, Nat.lt_succ_of_le (length_le_of_word h)⟩

/-- Skip a value that is no string and holds no others, of which nothing has been read yet. -/
def skipScalar (s : List Char) : Except ReadFault (Read Unit s) :=
  match s with
  | 'n' :: rest => skipWord ['u', 'l', 'l'] ('n' :: rest)
  | 't' :: rest => skipWord ['r', 'u', 'e'] ('t' :: rest)
  | 'f' :: rest => skipWord ['a', 'l', 's', 'e'] ('f' :: rest)
  | c :: rest => if c = '-' ∨ c.isDigit then skipNumber (c :: rest) else .error .malformed
  | [] => .error .cutShort

mutual

/-- Skip a value. -/
def skipValue (s : List Char) : Except ReadFault (Read Unit s) :=
  match h : skipBlanks s with
  | [] => .error .cutShort
  | c :: rest =>
    have hlt := lt_of_skipBlanks h
    if c = '[' then
      match h' : skipBlanks rest with
      | ']' :: after => .ok ⟨(), after, Nat.lt_trans (lt_of_skipBlanks h') hlt⟩
      | _ => (skipElements rest).map (·.widen (Nat.le_of_lt hlt))
    else if c = '\x7b' then
      match h' : skipBlanks rest with
      | '\x7d' :: after => .ok ⟨(), after, Nat.lt_trans (lt_of_skipBlanks h') hlt⟩
      | _ => (skipMembers rest).map (·.widen (Nat.le_of_lt hlt))
    else if c = '"' then (skipChars rest).map (·.widen (Nat.le_of_lt hlt))
    else (skipScalar (c :: rest)).map (·.widen hlt)
termination_by (s.length, 0)

/-- Skip the elements of an array from one of them on, and its end. -/
def skipElements (s : List Char) : Except ReadFault (Read Unit s) :=
  match skipValue s with
  | .error fault => .error fault
  | .ok element =>
    match h : skipBlanks element.rest with
    | [] => .error .cutShort
    | ']' :: after => .ok ⟨(), after, Nat.lt_trans (lt_of_skipBlanks h) element.shorter⟩
    | ',' :: rest =>
      have hlt := Nat.lt_trans (lt_of_skipBlanks h) element.shorter
      (skipElements rest).map (·.widen (Nat.le_of_lt hlt))
    | _ :: _ => .error .malformed
termination_by (s.length, 1)

/-- Skip the members of an object from one of them on, and its end. -/
def skipMembers (s : List Char) : Except ReadFault (Read Unit s) :=
  match h : skipBlanks s with
  | [] => .error .cutShort
  | '"' :: rest =>
    have hrest := lt_of_skipBlanks h
    match skipChars rest with
    | .error fault => .error fault
    | .ok key =>
      match colon key.rest with
      | .error fault => .error fault
      | .ok mark =>
        have hmark := Nat.lt_trans mark.shorter (Nat.lt_trans key.shorter hrest)
        match skipValue mark.rest with
        | .error fault => .error fault
        | .ok value =>
          have hvalue := Nat.lt_trans value.shorter hmark
          match h' : skipBlanks value.rest with
          | [] => .error .cutShort
          | '\x7d' :: after => .ok ⟨(), after, Nat.lt_trans (lt_of_skipBlanks h') hvalue⟩
          | ',' :: more =>
            have hlt := Nat.lt_trans (lt_of_skipBlanks h') hvalue
            (skipMembers more).map (·.widen (Nat.le_of_lt hlt))
          | _ :: _ => .error .malformed
  | _ :: _ => .error .malformed
termination_by (s.length, 0)

end

end LogForwarding.Json
