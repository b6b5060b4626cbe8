/-
# The grammar of TOML strings and arrays of strings

A text may be spelled in several ways as a basic string, since any character
may be escaped and some by more than one escape; an array of strings may have
blanks around its items and a comma after the last one. Here are these
spellings as sets of texts, and the proof that the reader of values finds in
each of them what it spells. So no text spells two strings, or two arrays.

Key definitions: `Toml.Escapes`, `Toml.SpellsChar`, `Toml.SpellsString`,
`Toml.SpellsItems`, `Toml.SpellsArray`.
Key theorems: `Toml.char?_of_spells`, `Toml.content?_of_spells`,
`Toml.string?_of_spells`, `Toml.items?_of_spells`, `Toml.array?_of_spells`,
`Toml.SpellsString.unique`, `Toml.SpellsArray.unique`.
-/
import LogForwarding.Proofs.Json.Grammar
import LogForwarding.Proofs.Toml.Reader

namespace LogForwarding

namespace Toml

/-- The short forms of an escape: a backslash with a letter, or with `u` and four hexadecimal
digits. -/
inductive Escapes : Char → List Char → Prop where
  /-- `\b`, `\t`, `\n`, `\f`, `\r`, an escaped quote or an escaped backslash. -/
  | letter {c letter : Char} (h : (letter, c) ∈ escapeLetters) : Escapes c ['\\', letter]
  /-- The code point of the character, if it has no more than four digits. -/
  | unit {c : Char} {digits : List Char} (h : Json.HexUnit c.toNat digits) :
      Escapes c ('\\' :: 'u' :: digits)

/-- A character that may stand for itself: any but the quote, the backslash and the control
characters other than the tab. -/
structure StandsRaw (c : Char) : Prop where
  ne_quote : c ≠ '"'
  ne_backslash : c ≠ '\\'
  ne_delete : c ≠ '\x7f'
  tab_or_not_control : c = '\t' ∨ 0x20 ≤ c.toNat

/-- The texts for a character in a basic string. -/
inductive SpellsChar : Char → List Char → Prop where
  /-- The character itself. -/
  | raw {c : Char} (h : StandsRaw c) : SpellsChar c [c]
  /-- A short escape. -/
  | short {c : Char} {part : List Char} (h : Escapes c part) : SpellsChar c part
  /-- The code point of the character in eight digits. -/
  | long {c : Char} {high low : List Char} (hhigh : Json.HexUnit (c.toNat / 0x10000) high)
      (hlow : Json.HexUnit (c.toNat % 0x10000) low) :
      SpellsChar c ('\\' :: 'U' :: (high ++ low))

/-- The texts for a basic string. -/
def SpellsString (text : String) (cs : List Char) : Prop :=
  ∃ parts : List (List Char),
    List.Forall₂ SpellsChar text.toList parts ∧ cs = '"' :: (parts.flatten ++ ['"'])

/-- Blanks, any number of them. -/
def Blanks (cs : List Char) : Prop := ∀ c ∈ cs, c = ' ' ∨ c = '\t'

/-- The texts for a basic string with blanks around it. -/
def SpellsItem (item : String) (cs : List Char) : Prop :=
  ∃ before core after, Blanks before ∧ SpellsString item core ∧ Blanks after ∧
    cs = before ++ core ++ after

/-- The texts for the items of an array, with the closing bracket. -/
inductive SpellsItems : List String → List Char → Prop where
  /-- No item, or none after a comma. -/
  | none {blanks : List Char} (h : Blanks blanks) : SpellsItems [] (blanks ++ [']'])
  /-- The last item, without a comma. -/
  | last {item : String} {text : List Char} (h : SpellsItem item text) :
      SpellsItems [item] (text ++ [']'])
  /-- An item and its comma. -/
  | more {item : String} {items : List String} {text rest : List Char} (h : SpellsItem item text)
      (hrest : SpellsItems items rest) : SpellsItems (item :: items) (text ++ ',' :: rest)

/-- The texts for an array of basic strings on one line. -/
def SpellsArray (items : List String) (cs : List Char) : Prop :=
  ∃ rest, SpellsItems items rest ∧ cs = '[' :: rest

/-! ### Reading what is spelled: characters -/

theorem hexValue?_of_hexDigit {n : Nat} {c : Char} (h : Json.HexDigit n c) :
    hexValue? c = some n := by
  have hlower : ∀ i : Fin 16, hexValue? "0123456789abcdef".toList[i] = some i.val := by
    decide
  have hupper : ∀ i : Fin 16, hexValue? "0123456789ABCDEF".toList[i] = some i.val := by
    decide
  rcases h with h | h <;> obtain ⟨hlt, rfl⟩ := List.getElem?_eq_some_iff.1 h
  · exact hlower ⟨n, hlt⟩
  · exact hupper ⟨n, hlt⟩

/-- Four digits are read as their number, after any digits before them. -/
theorem exists_mapM_hexValue? {n : Nat} {digits : List Char} (h : Json.HexUnit n digits) :
    ∃ values, digits.mapM hexValue? = some values ∧
      ∀ m, values.foldl (16 * · + ·) m = 0x10000 * m + n := by
  obtain ⟨ha, hb, hc, hd⟩ := h
  rename_i a b c d i j k l
  refine ⟨[i, j, k, l], ?_, fun m => ?_⟩
  · simp [hexValue?_of_hexDigit ha, hexValue?_of_hexDigit hb, hexValue?_of_hexDigit hc,
      hexValue?_of_hexDigit hd]
  · simp only [List.foldl_cons, List.foldl_nil]
    omega

theorem ofHex?_of_values {c : Char} {digits : List Char} {values : List Nat}
    (h : digits.mapM hexValue? = some values) (hn : values.foldl (16 * · + ·) 0 = c.toNat) :
    ofHex? digits = some c := by
  have hvalid : c.toNat.isValidChar := c.valid
  simp [ofHex?, h, hn, hvalid]

theorem ofHex?_of_hexUnit {c : Char} {digits : List Char} (h : Json.HexUnit c.toNat digits) :
    ofHex? digits = some c := by
  obtain ⟨values, hvalues, hfold⟩ := exists_mapM_hexValue? h
  refine ofHex?_of_values hvalues ?_
  rw [hfold]
  omega

theorem ofHex?_of_hexUnits {c : Char} {high low : List Char}
    (hhigh : Json.HexUnit (c.toNat / 0x10000) high) (hlow : Json.HexUnit (c.toNat % 0x10000) low) :
    ofHex? (high ++ low) = some c := by
  obtain ⟨values, hvalues, hfold⟩ := exists_mapM_hexValue? hhigh
  obtain ⟨values', hvalues', hfold'⟩ := exists_mapM_hexValue? hlow
  have hboth : (high ++ low).mapM hexValue? = some (values ++ values') := by
    simp [List.mapM_append, hvalues, hvalues']
  refine ofHex?_of_values hboth ?_
  rw [List.foldl_append, hfold, hfold']
  omega

/-- A character that stands for itself is read as itself. -/
theorem char?_of_standsRaw {c : Char} (h : StandsRaw c) (rest : List Char) :
    char? (c :: rest) = some (c, rest) := by
  obtain ⟨hquote, hslash, hdelete, hcontrol⟩ := h
  have hraw : isRaw c = true := by
    simp [isRaw, hquote, hslash, hdelete, hcontrol]
  rw [char?]
  · rw [if_pos hraw]
  all_goals simp_all

theorem char?_of_escapes {c : Char} {part : List Char} (h : Escapes c part) (rest : List Char) :
    char? (part ++ rest) = some (c, rest) := by
  cases h with
  | letter h =>
    simp only [escapeLetters, List.mem_cons, Prod.mk.injEq, List.not_mem_nil, or_false] at h
    rcases h with ⟨rfl, rfl⟩ | ⟨rfl, rfl⟩ | ⟨rfl, rfl⟩ | ⟨rfl, rfl⟩ | ⟨rfl, rfl⟩ | ⟨rfl, rfl⟩ |
      ⟨rfl, rfl⟩ <;> rfl
  | unit h =>
    have hread := ofHex?_of_hexUnit h
    generalize c.toNat = n at h
    cases h
    simp only [List.cons_append, List.nil_append, char?, hread]
    rfl

/-- A character is read as it is spelled, whatever follows. -/
theorem char?_of_spells {c : Char} {part : List Char} (h : SpellsChar c part) (rest : List Char) :
    char? (part ++ rest) = some (c, rest) := by
  cases h with
  | raw h => exact char?_of_standsRaw h rest
  | short h => exact char?_of_escapes h rest
  | long hhigh hlow =>
    have hread := ofHex?_of_hexUnits hhigh hlow
    generalize c.toNat / 0x10000 = i at hhigh
    generalize c.toNat % 0x10000 = j at hlow
    cases hhigh
    cases hlow
    simp only [List.cons_append, List.nil_append, char?] at hread ⊢
    rw [hread]
    rfl

/-- No character is spelled as the end of a string is. -/
theorem head?_ne_of_spells {c : Char} {part : List Char} (h : SpellsChar c part)
    (rest : List Char) : (part ++ rest).head? ≠ some '"' := by
  cases h with
  | raw h => exact fun heq => h.ne_quote (Option.some.inj heq)
  | short h => cases h <;> simp
  | long => simp

/-! ### Reading what is spelled: strings and arrays -/

theorem content?_of_spells {cs : List Char} {parts : List (List Char)}
    (h : List.Forall₂ SpellsChar cs parts) (after : List Char) :
    content? (parts.flatten ++ '"' :: after) = some (cs, after) := by
  induction h with
  | nil =>
    rw [List.flatten_nil, List.nil_append, content?]
    exact if_pos rfl
  | cons hpart _ ih =>
    rw [List.flatten_cons, List.append_assoc,
      content?_of_char? (head?_ne_of_spells hpart _) (char?_of_spells hpart _), ih]
    rfl

/-- **A string is read as it is spelled.** -/
theorem string?_of_spells {text : String} {cs : List Char} (h : SpellsString text cs) :
    string? (String.ofList cs) = some text := by
  obtain ⟨parts, hparts, rfl⟩ := h
  simp [string?, content?_of_spells hparts]

/-- No text spells two strings. -/
theorem SpellsString.unique {s t : String} {cs : List Char} (hs : SpellsString s cs)
    (ht : SpellsString t cs) : s = t :=
  Option.some.inj ((string?_of_spells hs).symm.trans (string?_of_spells ht))

/-- Blanks are skipped, up to a character that is none. -/
theorem skipBlanks_append {blanks rest : List Char} {c : Char} (h : Blanks blanks)
    (hc : ¬ (c = ' ' ∨ c = '\t')) : skipBlanks (blanks ++ c :: rest) = c :: rest := by
  have hskip : ∀ c ∈ blanks, (c == ' ' || c == '\t') = true := fun c hmem => by simpa using h c hmem
  rw [skipBlanks, List.dropWhile_append_of_pos hskip,
    List.dropWhile_cons_of_neg (by simpa using hc)]

theorem item?_of_spells {item : String} {text rest : List Char} {c : Char}
    (h : SpellsItem item text) (hc : ¬ (c = ' ' ∨ c = '\t')) :
    item? (text ++ c :: rest) = some (item, c :: rest) := by
  obtain ⟨before, core, after, hbefore, ⟨parts, hparts, rfl⟩, hafter, rfl⟩ := h
  have hskip : skipBlanks (before ++ '"' :: (parts.flatten ++ ['"']) ++ after ++ c :: rest) =
      '"' :: (parts.flatten ++ '"' :: (after ++ c :: rest)) := by
    have hquote : ¬ ('"' = ' ' ∨ '"' = '\t') := by decide
    simpa using skipBlanks_append hbefore hquote
  rw [item?, hskip]
  simp [content?_of_spells hparts, skipBlanks_append hafter hc]

theorem items?_of_spells {items : List String} {cs : List Char} (h : SpellsItems items cs) :
    items? cs = some (items, []) := by
  induction h with
  | @none blanks h =>
    have hskip : skipBlanks (blanks ++ [']']) = [']'] := skipBlanks_append h (by decide)
    have hnone : item? (blanks ++ [']']) = Option.none := by
      rw [item?, hskip]
      rfl
    rw [items?]
    split
    · rw [hskip]
      rfl
    all_goals simp_all
  | last h => exact items?_of_last (item?_of_spells h (by decide))
  | more h _ ih =>
    rw [items?_of_next (item?_of_spells h (by decide)), ih]
    rfl

/-- **An array is read as it is spelled.** -/
theorem array?_of_spells {items : List String} {cs : List Char} (h : SpellsArray items cs) :
    array? (String.ofList cs) = some items := by
  obtain ⟨rest, hrest, rfl⟩ := h
  simp [array?, items?_of_spells hrest]

/-- No text spells two arrays. -/
theorem SpellsArray.unique {items found : List String} {cs : List Char}
    (hitems : SpellsArray items cs) (hfound : SpellsArray found cs) : items = found :=
  Option.some.inj ((array?_of_spells hitems).symm.trans (array?_of_spells hfound))

end Toml

end LogForwarding
