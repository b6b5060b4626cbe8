/-
# The grammar of JSON

The texts that the grammar has for a character in a string, for a string, for
an array or an object with given parts, and for any value at all. Each is a
set of texts, made by putting shorter ones after each other; blanks may stand
around every part. A string spells its characters, and any of them may be
escaped; for a value whose meaning does not matter (`ValueText`) the escapes
need not make characters.

Key definitions: `Json.Blanks`, `Json.SpellsChar`, `Json.SpellsString`,
`Json.Bracketed`, `Json.NumberText`, `Json.ValueText`, `Json.SpellsRecord`.
-/
import Mathlib.Data.List.Forall2

namespace LogForwarding.Json

/-- Blanks, any number of them. -/
def Blanks (cs : List Char) : Prop := ∀ c ∈ cs, c ∈ [' ', '\t', '\n', '\r']

/-- One of some texts, with blanks around it. -/
def Padded (texts : List Char → Prop) (cs : List Char) : Prop :=
  ∃ before core after, Blanks before ∧ texts core ∧ Blanks after ∧ cs = before ++ core ++ after

/-- Parts between brackets, with commas between the parts. -/
inductive Bracketed (opening closing : Char) : List (List Char) → List Char → Prop where
  /-- There may be blanks where there is no part. -/
  | none {blanks : List Char} (h : Blanks blanks) :
      Bracketed opening closing [] (opening :: (blanks ++ [closing]))
  /-- A comma stands before each part but the first. -/
  | some {part : List Char} {parts : List (List Char)} :
      Bracketed opening closing (part :: parts)
        (opening :: (part ++ parts.flatMap (',' :: ·) ++ [closing]))

/-! ### Strings -/

/-- A hexadecimal digit, in lower or upper case. -/
def HexDigit (n : Nat) (c : Char) : Prop :=
  "0123456789abcdef".toList[n]? = some c ∨ "0123456789ABCDEF".toList[n]? = some c

/-- Four hexadecimal digits. -/
inductive HexUnit : Nat → List Char → Prop where
  | digits {a b c d : Char} {i j k l : Nat} (ha : HexDigit i a) (hb : HexDigit j b)
      (hc : HexDigit k c) (hd : HexDigit l d) :
      HexUnit (4096 * i + 256 * j + 16 * k + l) [a, b, c, d]

/-- The letters that may follow a backslash, each with the character that they stand for. -/
def shortEscapes : List (Char × Char) :=
  [('"', '"'), ('\\', '\\'), ('/', '/'), ('b', '\x08'), ('f', '\x0c'), ('n', '\n'), ('r', '\r'),
    ('t', '\t')]

/-- A character that may stand for itself in a string. -/
def IsPlain (c : Char) : Prop := 0x20 ≤ c.toNat ∧ c ≠ '"' ∧ c ≠ '\\'

instance : DecidablePred IsPlain := fun c =>
  inferInstanceAs (Decidable (0x20 ≤ c.toNat ∧ c ≠ '"' ∧ c ≠ '\\'))

/-- The texts for a character in a string. -/
inductive SpellsChar : Char → List Char → Prop where
  /-- The character itself. -/
  | plain {c : Char} (h : IsPlain c) : SpellsChar c [c]
  /-- A backslash and a letter. -/
  | short {c letter : Char} (h : (letter, c) ∈ shortEscapes) : SpellsChar c ['\\', letter]
  /-- One unit of UTF-16. -/
  | unit {c : Char} {digits : List Char} (h : HexUnit c.toNat digits) :
      SpellsChar c ('\\' :: 'u' :: digits)
  /-- Two units of UTF-16, a high and a low surrogate. -/
  | pair {c : Char} {high low : List Char} (hc : 0x10000 ≤ c.toNat)
      (hhigh : HexUnit (0xd800 + (c.toNat - 0x10000) / 0x400) high)
      (hlow : HexUnit (0xdc00 + (c.toNat - 0x10000) % 0x400) low) :
      SpellsChar c ('\\' :: 'u' :: (high ++ '\\' :: 'u' :: low))

/-- The texts for a string. -/
def SpellsString (text : String) (cs : List Char) : Prop :=
  ∃ parts : List (List Char),
    List.Forall₂ SpellsChar text.toList parts ∧ cs = '"' :: (parts.flatten ++ ['"'])

/-! ### Values whose meaning does not matter -/

/-- A part of a string whose meaning does not matter: surrogates may stand in any order. -/
inductive StringPart : List Char → Prop where
  | plain {c : Char} (h : IsPlain c) : StringPart [c]
  | short {c letter : Char} (h : (letter, c) ∈ shortEscapes) : StringPart ['\\', letter]
  | unit {n : Nat} {digits : List Char} (h : HexUnit n digits) :
      StringPart ('\\' :: 'u' :: digits)

/-- A string whose meaning does not matter. -/
def StringText (cs : List Char) : Prop :=
  ∃ parts : List (List Char),
    (∀ part ∈ parts, StringPart part) ∧ cs = '"' :: (parts.flatten ++ ['"'])

/-- One or more digits. -/
def Digits (cs : List Char) : Prop := cs ≠ [] ∧ ∀ c ∈ cs, c.isDigit = true

/-- The whole part of a number, without leading zeros. -/
inductive WholePart : List Char → Prop where
  | zero : WholePart ['0']
  | digits {cs : List Char} (h : Digits cs) (hzero : cs.head? ≠ some '0') : WholePart cs

/-- The fraction of a number, which need not be there. -/
inductive FractionPart : List Char → Prop where
  | none : FractionPart []
  | digits {cs : List Char} (h : Digits cs) : FractionPart ('.' :: cs)

/-- The exponent of a number, which need not be there. -/
inductive ExponentPart : List Char → Prop where
  | none : ExponentPart []
  | digits {letter : Char} {sign cs : List Char} (hletter : letter ∈ ['e', 'E'])
      (hsign : sign ∈ [[], ['+'], ['-']]) (h : Digits cs) : ExponentPart (letter :: (sign ++ cs))

/-- A number. -/
def NumberText (cs : List Char) : Prop :=
  ∃ sign whole fraction exponent, sign ∈ [[], ['-']] ∧ WholePart whole ∧
    FractionPart fraction ∧ ExponentPart exponent ∧ cs = sign ++ whole ++ fraction ++ exponent

mutual

/-- Any value. -/
inductive ValueText : List Char → Prop where
  | word {w : String} (h : w ∈ ["null", "true", "false"]) : ValueText w.toList
  | number {cs : List Char} (h : NumberText cs) : ValueText cs
  | string {cs : List Char} (h : StringText cs) : ValueText cs
  | array {parts : List (List Char)} {cs : List Char} (hparts : ElementTexts parts)
      (h : Bracketed '[' ']' parts cs) : ValueText cs
  | object {parts : List (List Char)} {cs : List Char} (hparts : MemberTexts parts)
      (h : Bracketed '\x7b' '\x7d' parts cs) : ValueText cs

/-- Any values, with the blanks around them. -/
inductive ElementTexts : List (List Char) → Prop where
  | nil : ElementTexts []
  | cons {before value after : List Char} {parts : List (List Char)} (hbefore : Blanks before)
      (hvalue : ValueText value) (hafter : Blanks after) (hparts : ElementTexts parts) :
      ElementTexts ((before ++ value ++ after) :: parts)

/-- Members with any keys and values, with the blanks around them. -/
inductive MemberTexts : List (List Char) → Prop where
  | nil : MemberTexts []
  | cons {before key between gap value after : List Char} {parts : List (List Char)}
      (hbefore : Blanks before) (hkey : StringText key) (hbetween : Blanks between)
      (hgap : Blanks gap) (hvalue : ValueText value) (hafter : Blanks after)
      (hparts : MemberTexts parts) :
      MemberTexts ((before ++ key ++ between ++ ':' :: (gap ++ value ++ after)) :: parts)

end

/-! ### Arrays and objects with a meaning -/

/-- The texts for an array of values, each of which has the texts `spells`. -/
def SpellsArray {α : Type*} (spells : α → List Char → Prop) (values : List α) (cs : List Char) :
    Prop :=
  ∃ parts, List.Forall₂ (fun value => Padded (spells value)) values parts ∧
    Bracketed '[' ']' parts cs

/-- The texts for a member of an object: its key, and after a colon the text of its value. -/
def SpellsMember (member : String × List Char) (cs : List Char) : Prop :=
  ∃ key value, Padded (SpellsString member.1) key ∧ Padded (· = member.2) value ∧
    cs = key ++ ':' :: value

/-- The texts for an object with the members. -/
def SpellsObject (members : List (String × List Char)) (cs : List Char) : Prop :=
  ∃ parts, List.Forall₂ SpellsMember members parts ∧ Bracketed '\x7b' '\x7d' parts cs

/-- A field of a record of type `α`: its key, the texts for its value in a given record, and the
records of which it may be left out. -/
structure FieldTexts (α : Type) where
  key : String
  spells : α → List Char → Prop
  omissible : α → Prop

/-- The texts for a record with the fields. -/
inductive SpellsRecord {α : Type} (fields : List (FieldTexts α)) (record : α) :
    List Char → Prop where
  /-- An object with the fields as members in any order, each once, and with any other members. -/
  | object {members : List (String × List Char)} {cs : List Char}
      (hknown : ∀ f ∈ fields,
        (∃ value, members.filter (·.1 == f.key) = [(f.key, value)] ∧ f.spells record value) ∨
          ((∀ m ∈ members, m.1 ≠ f.key) ∧ f.omissible record))
      (hunknown : ∀ m ∈ members, (∀ f ∈ fields, m.1 ≠ f.key) → ValueText m.2)
      (h : SpellsObject members cs) : SpellsRecord fields record cs
  /-- An array of the fields in their order, of which the last may be left out. -/
  | array {given omitted : List (FieldTexts α)} {cs : List Char}
      (hfields : fields = given ++ omitted)
      (homitted : ∀ f ∈ omitted, f.omissible record)
      (h : SpellsArray (fun f => f.spells record) given cs) : SpellsRecord fields record cs

end LogForwarding.Json
