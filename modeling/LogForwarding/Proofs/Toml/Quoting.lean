/-
# What is written is a TOML value

A text is quoted for TOML in two steps: it is written as a string of JSON, and
then the delete character, which JSON leaves as it is, is replaced by its code
point. The second step goes over text that is escaped already, and can neither
hit an escape nor complete one, since no escape of the first holds the delete
character; so both together are one escape for each character
(`Toml.quote_eq_replace`).

The result is a basic string of TOML on one line that spells the text, and no
other text; and an array of quoted items spells these items, and no others. So
both are read back as what they were written from.

Key definitions: `Json.writtenChar`, `Json.written`, `Text.replaceChar`,
`Toml.Printable`, `Toml.WritesChar`, `Toml.WritesString`.
Key theorems: `Toml.writesString_quote`, `Toml.newline_notMem_array`,
`Toml.quote_eq_replace`, `Toml.spellsArray_array`, `Toml.string?_quote`,
`Toml.array?_array`, `Toml.quote_array_spelled`.
-/
import LogForwarding.Proofs.FirstFault
import LogForwarding.Proofs.Toml.Grammar

namespace LogForwarding

/-- How `c` is written in a string of JSON: by a letter where the format has one, by its code point
in lower-case digits where the format forbids it raw, and as itself otherwise. -/
def Json.writtenChar (c : Char) : List Char :=
  if c = '"' ∨ c = '\\' then ['\\', c]
  else if c = '\x08' then ['\\', 'b']
  else if c = '\t' then ['\\', 't']
  else if c = '\n' then ['\\', 'n']
  else if c = '\x0c' then ['\\', 'f']
  else if c = '\r' then ['\\', 'r']
  else if c.toNat < 0x20 then ['\\', 'u', '0', '0'] ++ Toml.hexPair c.toNat
  else [c]

/-- `s` as a string of JSON. -/
def Json.written (s : String) : String :=
  String.ofList (['"'] ++ s.toList.flatMap Json.writtenChar ++ ['"'])

/-- The text with `replacement` wherever `c` stands. -/
def Text.replaceChar (c : Char) (replacement : String) (s : String) : String :=
  String.ofList (s.toList.flatMap fun d => if d = c then replacement.toList else [d])

theorem Json.toList_written (s : String) :
    (written s).toList = '"' :: (s.toList.flatMap writtenChar ++ ['"']) := by
  simp [written]

theorem Text.toList_replaceChar (c : Char) (replacement s : String) :
    (replaceChar c replacement s).toList =
      s.toList.flatMap fun d => if d = c then replacement.toList else [d] := by
  rw [replaceChar, String.toList_ofList]

namespace Toml

/-! ### A string on one line -/

/-- The character is no control character: none of those before the blank, nor the delete
character. -/
def Printable (c : Char) : Prop := 0x20 ≤ c.toNat ∧ c ≠ '\x7f'

instance : DecidablePred Printable := fun c =>
  inferInstanceAs (Decidable (0x20 ≤ c.toNat ∧ c ≠ '\x7f'))

/-- The texts that may be written for a character: itself if it is printable, or a short escape. -/
inductive WritesChar : Char → List Char → Prop where
  | raw {c : Char} (hquote : c ≠ '"') (hslash : c ≠ '\\') (h : Printable c) : WritesChar c [c]
  | escape {c : Char} {part : List Char} (h : Escapes c part) : WritesChar c part

/-- The texts that may be written for a string: they begin and end with a quote. -/
def WritesString (text : String) (cs : List Char) : Prop :=
  ∃ parts : List (List Char),
    List.Forall₂ WritesChar text.toList parts ∧ cs = '"' :: (parts.flatten ++ ['"'])

theorem WritesChar.spells {c : Char} {part : List Char} (h : WritesChar c part) :
    SpellsChar c part := by
  cases h with
  | raw hquote hslash h => exact .raw ⟨hquote, hslash, h.2, .inr h.1⟩
  | escape h => exact .short h

theorem hexUnit_hexPair {n : Nat} (h : n < 0x20) : Json.HexUnit n (['0', '0'] ++ hexPair n) := by
  have hdigit : ∀ i : Fin 16, Json.HexDigit i (Nat.digitChar i) := by
    intro i
    left
    revert i
    decide
  have hzero : Json.HexDigit 0 '0' := hdigit 0
  have hhigh := hdigit ⟨n / 16 % 16, Nat.mod_lt _ (by decide)⟩
  have hlow := hdigit ⟨n % 16, Nat.mod_lt _ (by decide)⟩
  have hunit := Json.HexUnit.digits hzero hzero hhigh hlow
  have hvalue : 4096 * 0 + 256 * 0 + 16 * (n / 16 % 16) + n % 16 = n := by omega
  rwa [hvalue] at hunit

/-- Each character is written as a string may hold it. -/
theorem writesChar_escaped (c : Char) : WritesChar c (escaped c) := by
  unfold escaped
  split_ifs with hquote hb ht hn hf hr hcontrol hdel
  · exact .escape (.letter (by rcases hquote with rfl | rfl <;> decide))
  · exact .escape (.letter (by rw [hb]; decide))
  · exact .escape (.letter (by rw [ht]; decide))
  · exact .escape (.letter (by rw [hn]; decide))
  · exact .escape (.letter (by rw [hf]; decide))
  · exact .escape (.letter (by rw [hr]; decide))
  · exact .escape (.unit (hexUnit_hexPair hcontrol))
  · have hunit : Json.HexUnit 0x7f ['0', '0', '7', 'F'] :=
      .digits (i := 0) (j := 0) (k := 7) (l := 15) (.inl rfl) (.inl rfl) (.inl rfl) (.inr rfl)
    rw [hdel]
    exact .escape (.unit hunit)
  · obtain ⟨hq, hs⟩ := not_or.1 hquote
    exact .raw hq hs ⟨Nat.le_of_not_lt hcontrol, hdel⟩

theorem toList_quote (s : String) :
    (quote s).toList = '"' :: (s.toList.flatMap escaped ++ ['"']) := by
  simp [quote]

theorem writesString_quote (s : String) : WritesString s (quote s).toList := by
  refine ⟨s.toList.map escaped, ?_, by rw [toList_quote, List.flatMap_def]⟩
  rw [List.forall₂_map_right_iff]
  exact List.forall₂_same.2 fun c _ => writesChar_escaped c

theorem WritesString.spells {text : String} {cs : List Char} (h : WritesString text cs) :
    SpellsString text cs := by
  obtain ⟨parts, hparts, rfl⟩ := h
  exact ⟨parts, hparts.imp fun _ _ => WritesChar.spells, rfl⟩

/-! ### One line -/

theorem printable_of_hexDigit {n : Nat} {c : Char} (h : Json.HexDigit n c) : Printable c := by
  have hall : ∀ digits : List Char, digits.all (Printable ·) = true → digits[n]? = some c →
      Printable c :=
    fun digits hd hc => of_decide_eq_true (List.all_eq_true.1 hd c (List.mem_of_getElem? hc))
  exact h.elim (hall _ (by decide)) (hall _ (by decide))

/-- What is written for a character is printable. -/
theorem WritesChar.printable {c d : Char} {part : List Char} (h : WritesChar c part)
    (hd : d ∈ part) : Printable d := by
  have hslash : Printable '\\' := by decide
  cases h with
  | raw _ _ h => rwa [List.mem_singleton.1 hd]
  | escape h =>
    cases h with
    | @letter letter h =>
      have hletters : escapeLetters.all (Printable ·.1) = true := by decide
      have hletter : Printable letter := of_decide_eq_true (List.all_eq_true.1 hletters _ h)
      rcases List.mem_pair.1 hd with rfl | rfl
      · exact hslash
      · exact hletter
    | unit h =>
      generalize c.toNat = n at h
      obtain ⟨hi, hj, hk, hl⟩ := h
      simp only [List.mem_cons, List.not_mem_nil, or_false] at hd
      rcases hd with rfl | rfl | rfl | rfl | rfl | rfl
      · exact hslash
      · decide
      · exact printable_of_hexDigit hi
      · exact printable_of_hexDigit hj
      · exact printable_of_hexDigit hk
      · exact printable_of_hexDigit hl

/-- A written string takes one line: it holds no control character. -/
theorem WritesString.printable {text : String} {cs : List Char} (h : WritesString text cs)
    {d : Char} (hd : d ∈ cs) : Printable d := by
  have hquote : Printable '"' := by decide
  obtain ⟨parts, hparts, rfl⟩ := h
  simp only [List.mem_cons, List.mem_append, List.mem_flatten, List.not_mem_nil, or_false] at hd
  rcases hd with rfl | ⟨part, hpart, hd⟩ | rfl
  · exact hquote
  · obtain ⟨c, _, hc⟩ := exists_mem_of_forall₂ hparts hpart
    exact hc.printable hd
  · exact hquote

theorem newline_notMem_quote (s : String) : '\n' ∉ (quote s).toList :=
  fun h => absurd ((writesString_quote s).printable h) (by decide)

theorem newline_notMem_intercalate {items : List String} (h : ∀ s ∈ items, '\n' ∉ s.toList) :
    '\n' ∉ (String.intercalate ", " items).toList := by
  induction items with
  | nil => simp
  | cons s rest ih =>
    obtain ⟨hs, hrest⟩ := List.forall_mem_cons.1 h
    cases rest with
    | nil => simpa using hs
    | cons t rest =>
      have htail := ih hrest
      rw [String.intercalate_cons_cons]
      simp_all

theorem newline_notMem_array (items : List String) : '\n' ∉ (array items).toList := by
  have hitems : ∀ s ∈ items.map quote, '\n' ∉ s.toList := by
    intro s hs
    obtain ⟨item, _, rfl⟩ := List.mem_map.1 hs
    exact newline_notMem_quote item
  have hlist := newline_notMem_intercalate hitems
  simpa [array] using hlist

/-! ### Two steps -/

/-- Without the delete character, what is written for JSON is written for TOML. -/
theorem writtenChar_of_ne {c : Char} (h : c ≠ '\x7f') : Json.writtenChar c = escaped c := by
  rw [Json.writtenChar, escaped, if_neg h]

/-- The replacement replaces the delete character itself, and finds none in any escape. -/
theorem flatMap_writtenChar (c : Char) :
    (Json.writtenChar c).flatMap (fun d => if d = '\x7f' then "\\u007F".toList else [d]) =
      escaped c := by
  by_cases hc : c = '\x7f'
  · subst hc
    rfl
  · have hkept : ∀ d ∈ escaped c, (if d = '\x7f' then "\\u007F".toList else [d]) = [d] :=
      fun d hd => if_neg ((writesChar_escaped c).printable hd).2
    rw [writtenChar_of_ne hc, List.flatMap_congr hkept, List.flatMap_singleton']

/-- Quoting is writing for JSON, and then replacing the delete character. -/
theorem quote_eq_replace (s : String) :
    quote s = Text.replaceChar '\x7f' "\\u007F" (Json.written s) := by
  have hchars : (s.toList.flatMap Json.writtenChar).flatMap
      (fun d => if d = '\x7f' then "\\u007F".toList else [d]) = s.toList.flatMap escaped := by
    rw [List.flatMap_assoc]
    exact List.flatMap_congr fun c _ => flatMap_writtenChar c
  apply String.toList_injective
  rw [toList_quote, ← hchars, Text.toList_replaceChar, Json.toList_written, List.flatMap_cons,
    List.flatMap_append]
  rfl

/-! ### Arrays -/

theorem SpellsItems.blank {items : List String} {cs : List Char} (h : SpellsItems items cs) :
    SpellsItems items (' ' :: cs) := by
  have hitem : ∀ {item text}, SpellsItem item text → SpellsItem item (' ' :: text) := by
    rintro item text ⟨before, core, after, hbefore, hcore, hafter, rfl⟩
    exact ⟨' ' :: before, core, after, List.forall_mem_cons.2 ⟨.inl rfl, hbefore⟩, hcore, hafter,
      rfl⟩
  cases h with
  | none h => exact .none (List.forall_mem_cons.2 ⟨.inl rfl, h⟩)
  | last h => exact .last (hitem h)
  | more h hrest => exact .more (hitem h) hrest

theorem spellsItem_quote (s : String) : SpellsItem s (quote s).toList :=
  ⟨[], _, [], nofun, (writesString_quote s).spells, nofun, by simp⟩

/-- Quoted items with commas between them are the items of an array. -/
theorem spellsItems_intercalate (items : List String) :
    SpellsItems items ((String.intercalate ", " (items.map quote)).toList ++ [']']) := by
  induction items with
  | nil => exact @SpellsItems.none [] nofun
  | cons s rest ih =>
    cases rest with
    | nil =>
      rw [List.map_cons, List.map_nil, String.intercalate_singleton]
      exact .last (spellsItem_quote s)
    | cons t rest =>
      have hsplit : (String.intercalate ", " ((s :: t :: rest).map quote)).toList ++ [']'] =
          (quote s).toList ++ ',' :: ' ' ::
            ((String.intercalate ", " ((t :: rest).map quote)).toList ++ [']']) := by
        simp [String.intercalate_cons_cons]
      rw [hsplit]
      exact .more (spellsItem_quote s) ih.blank

theorem spellsArray_array (items : List String) : SpellsArray items (array items).toList :=
  ⟨_, spellsItems_intercalate items, by simp [array]⟩

/-! ### Reading back -/

/-- **A quoted text is read back**, whatever characters it holds. -/
theorem string?_quote (s : String) : string? (quote s) = some s := by
  have hread := string?_of_spells (writesString_quote s).spells
  rwa [String.ofList_toList] at hread

/-- **An array is read back**, whatever its items are. -/
theorem array?_array (items : List String) : array? (array items) = some items := by
  have hread := array?_of_spells (spellsArray_array items)
  rwa [String.ofList_toList] at hread

/-- **Quoted texts are basic strings of TOML.** A text is quoted in two steps, and the result is
written with quotes at its ends and, between them, printable characters and short escapes; it takes
one line, and spells the text and no other. An array of texts spells these texts, in order, and
no others. -/
theorem quote_array_spelled (s : String) (items : List String) :
    (quote s = Text.replaceChar '\x7f' "\\u007F" (Json.written s) ∧
      WritesString s (quote s).toList ∧
      (∀ c ∈ (quote s).toList, Printable c) ∧
      ∀ t, SpellsString t (quote s).toList ↔ t = s) ∧
    ∀ found, SpellsArray found (array items).toList ↔ found = items := by
  have hwritten := writesString_quote s
  have harray := spellsArray_array items
  refine ⟨⟨quote_eq_replace s, hwritten, fun c => hwritten.printable, fun t => ⟨fun ht => ?_, ?_⟩⟩,
    fun found => ⟨fun hfound => ?_, ?_⟩⟩
  · exact ht.unique hwritten.spells
  · rintro rfl
    exact hwritten.spells
  · exact hfound.unique harray
  · rintro rfl
    exact harray

end Toml

end LogForwarding
