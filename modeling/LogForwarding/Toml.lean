/-
# TOML strings and arrays of strings

The configuration is written in TOML with one form of value for texts, the
basic string: between double quotes, with an escape for the quote, the
backslash and every character that the format forbids raw (U+0000 to U+001F
and U+007F). An array of strings stands on one line.

Key definitions: `Toml.escaped`, `Toml.quote`, `Toml.array`.
-/

namespace LogForwarding.Toml

/-- The two lowest hexadecimal digits of `n`. -/
def hexPair (n : Nat) : List Char := [Nat.digitChar (n / 16 % 16), Nat.digitChar (n % 16)]

/-- How `c` is written inside a basic string: by a letter where the format has one, by its code
point where the format forbids it raw, and as itself otherwise. -/
def escaped (c : Char) : List Char :=
  if c = '"' ∨ c = '\\' then ['\\', c]
  else if c = '\x08' then ['\\', 'b']
  else if c = '\t' then ['\\', 't']
  else if c = '\n' then ['\\', 'n']
  else if c = '\x0c' then ['\\', 'f']
  else if c = '\r' then ['\\', 'r']
  else if c.toNat < 0x20 then ['\\', 'u', '0', '0'] ++ hexPair c.toNat
  else if c = '\x7f' then ['\\', 'u', '0', '0', '7', 'F']
  else [c]

/-- `s` as a basic string. -/
def quote (s : String) : String :=
  String.ofList (['"'] ++ s.toList.flatMap escaped ++ ['"'])

/-- `items` as an array of basic strings on one line. -/
def array (items : List String) : String :=
  "[" ++ String.intercalate ", " (items.map quote) ++ "]"

end LogForwarding.Toml
