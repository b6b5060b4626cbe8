/-
# Strings are read as they are spelled

A reader gives a value and what is left of the text (`Reads`). What it reads
does not depend on what follows, so each lemma here says for a text and
anything after it what is read from both.

Key definitions: `Json.Reads`.
Key theorems: `Json.reads_chars`, `Json.reads_string`, `Json.skips_chars`.
-/
import LogForwarding.Json.Text
import LogForwarding.Proofs.Json.Grammar

namespace LogForwarding.Json

variable {α β : Type} {s t : List Char}

/-- The value is read, and the rest is left. -/
def Reads (outcome : Except ReadFault (Read α s)) (value : α) (rest : List Char) : Prop :=
  ∃ h, outcome = .ok ⟨value, rest, h⟩

theorem Reads.map {outcome : Except ReadFault (Read α s)} {value : α} {rest : List Char}
    (h : Reads outcome value rest) (f : α → β) :
    Reads (outcome.map (·.map f)) (f value) rest := by
  obtain ⟨hlt, rfl⟩ := h
  exact ⟨hlt, rfl⟩

theorem Reads.widen {outcome : Except ReadFault (Read α s)} {value : α} {rest : List Char}
    (h : Reads outcome value rest) (hle : s.length ≤ t.length) :
    Reads (outcome.map (·.widen hle)) value rest := by
  obtain ⟨hlt, rfl⟩ := h
  exact ⟨Nat.lt_of_lt_of_le hlt hle, rfl⟩

/-! ### Blanks -/

theorem isBlank_of_mem {c : Char} (h : c ∈ [' ', '\t', '\n', '\r']) : isBlank c = true := by
  simp only [List.mem_cons, List.not_mem_nil, or_false] at h
  rcases h with rfl | rfl | rfl | rfl <;> decide

/-- Blanks are skipped, up to a character that is none. -/
theorem skipBlanks_append {blanks rest : List Char} {c : Char} (h : Blanks blanks)
    (hc : isBlank c = false) : skipBlanks (blanks ++ c :: rest) = c :: rest := by
  rw [skipBlanks, List.dropWhile_append_of_pos fun c hmem => isBlank_of_mem (h c hmem)]
  exact List.dropWhile_cons_of_neg (by simp [hc])

/-! ### Escapes -/

theorem hexValue?_of_hexDigit {n : Nat} {c : Char} (h : HexDigit n c) : hexValue? c = some n := by
  have hlower : ∀ i : Fin 16, hexValue? "0123456789abcdef".toList[i] = some i.val := by
    decide
  have hupper : ∀ i : Fin 16, hexValue? "0123456789ABCDEF".toList[i] = some i.val := by
    decide
  rcases h with h | h <;> obtain ⟨hlt, rfl⟩ := List.getElem?_eq_some_iff.1 h
  · exact hlower ⟨n, hlt⟩
  · exact hupper ⟨n, hlt⟩

theorem reads_hexUnit {n : Nat} {digits : List Char} (h : HexUnit n digits) (rest : List Char) :
    Reads (hexUnit (digits ++ rest)) n rest := by
  obtain ⟨ha, hb, hc, hd⟩ := h
  rename_i a b c d i j k l
  have hnumber : hexNumber? [a, b, c, d] = some (4096 * i + 256 * j + 16 * k + l) := by
    simp only [hexNumber?, List.foldlM_cons, List.foldlM_nil, hexValue?_of_hexDigit ha,
      hexValue?_of_hexDigit hb, hexValue?_of_hexDigit hc, hexValue?_of_hexDigit hd, Option.map_some,
      Option.bind_eq_bind, Option.bind_some, Option.pure_def, Option.some.injEq]
    omega
  have hlt : rest.length < ([a, b, c, d] ++ rest).length := by
    rw [List.length_append]
    exact Nat.lt_add_of_pos_left (by simp)
  refine ⟨hlt, ?_⟩
  simp only [List.cons_append, List.nil_append, hexUnit, hnumber]

/-- A character is no surrogate. -/
theorem toNat_lt_or_lt (c : Char) : c.toNat < 0xd800 ∨ 0xdfff < c.toNat ∧ c.toNat < 0x110000 := by
  have h := c.valid
  unfold UInt32.isValidChar Nat.isValidChar at h
  exact h

theorem isHighSurrogate_iff {n : Nat} : isHighSurrogate n = true ↔ 0xd800 ≤ n ∧ n ≤ 0xdbff := by
  rw [isHighSurrogate, Bool.and_eq_true, decide_eq_true_eq, decide_eq_true_eq]

theorem isLowSurrogate_iff {n : Nat} : isLowSurrogate n = true ↔ 0xdc00 ≤ n ∧ n ≤ 0xdfff := by
  rw [isLowSurrogate, Bool.and_eq_true, decide_eq_true_eq, decide_eq_true_eq]

theorem reads_escape_short {c letter : Char} (h : (letter, c) ∈ shortEscapes) (rest : List Char) :
    Reads (escape (letter :: rest)) c rest := by
  simp only [shortEscapes, List.mem_cons, Prod.mk.injEq, List.not_mem_nil, or_false] at h
  rcases h with ⟨rfl, rfl⟩ | ⟨rfl, rfl⟩ | ⟨rfl, rfl⟩ | ⟨rfl, rfl⟩ | ⟨rfl, rfl⟩ | ⟨rfl, rfl⟩ |
    ⟨rfl, rfl⟩ | ⟨rfl, rfl⟩ <;> exact ⟨Nat.lt_succ_self _, rfl⟩

theorem reads_escape_unit {c : Char} {digits : List Char} (h : HexUnit c.toNat digits)
    (rest : List Char) : Reads (escape ('u' :: (digits ++ rest))) c rest := by
  obtain ⟨hlt, hread⟩ := reads_hexUnit h rest
  have hlow : ¬ isLowSurrogate c.toNat = true := by
    rw [isLowSurrogate_iff]
    have := toNat_lt_or_lt c
    omega
  have hhigh : ¬ isHighSurrogate c.toNat = true := by
    rw [isHighSurrogate_iff]
    have := toNat_lt_or_lt c
    omega
  refine ⟨Nat.lt_succ_of_lt hlt, ?_⟩
  simp only [escape, hread, hlow, hhigh, Char.ofNat_toNat]
  rfl

theorem reads_lowSurrogate {n : Nat} {digits : List Char} (h : HexUnit n digits)
    (hlow : isLowSurrogate n = true) (rest : List Char) :
    Reads (lowSurrogate ('\\' :: 'u' :: (digits ++ rest))) n rest := by
  obtain ⟨hlt, hread⟩ := reads_hexUnit h rest
  refine ⟨Nat.lt_succ_of_lt (Nat.lt_succ_of_lt hlt), ?_⟩
  simp only [lowSurrogate, hread, hlow]
  rfl

theorem reads_escape_pair {c : Char} {high low : List Char} (hc : 0x10000 ≤ c.toNat)
    (hhigh : HexUnit (0xd800 + (c.toNat - 0x10000) / 0x400) high)
    (hlow : HexUnit (0xdc00 + (c.toNat - 0x10000) % 0x400) low) (rest : List Char) :
    Reads (escape ('u' :: (high ++ '\\' :: 'u' :: (low ++ rest)))) c rest := by
  have hbound : c.toNat < 0x110000 := by
    have := toNat_lt_or_lt c
    omega
  have hnot : ¬ isLowSurrogate (0xd800 + (c.toNat - 0x10000) / 0x400) = true := by
    rw [isLowSurrogate_iff]
    omega
  have his : isHighSurrogate (0xd800 + (c.toNat - 0x10000) / 0x400) = true := by
    rw [isHighSurrogate_iff]
    omega
  have hislow : isLowSurrogate (0xdc00 + (c.toNat - 0x10000) % 0x400) = true := by
    rw [isLowSurrogate_iff]
    omega
  have hpair : surrogatePair (0xd800 + (c.toNat - 0x10000) / 0x400)
      (0xdc00 + (c.toNat - 0x10000) % 0x400) = c := by
    have hnat : 0x10000 + (0xd800 + (c.toNat - 0x10000) / 0x400 - 0xd800) * 0x400 +
        (0xdc00 + (c.toNat - 0x10000) % 0x400 - 0xdc00) = c.toNat := by
      omega
    rw [surrogatePair, hnat, Char.ofNat_toNat]
  obtain ⟨hlt, hread⟩ := reads_hexUnit hhigh ('\\' :: 'u' :: (low ++ rest))
  obtain ⟨hlt', hread'⟩ := reads_lowSurrogate hlow hislow rest
  refine ⟨Nat.lt_succ_of_lt (Nat.lt_trans hlt' hlt), ?_⟩
  simp only [escape, hread, hnot, his, hread', hpair]
  rfl

/-! ### Characters and strings -/

theorem reads_chars_plain {c : Char} {more rest cs : List Char} (h : IsPlain c)
    (hmore : Reads (chars more) cs rest) : Reads (chars (c :: more)) (c :: cs) rest := by
  obtain ⟨hcontrol, hquote, hbackslash⟩ := h
  obtain ⟨hlt, hread⟩ := hmore
  refine ⟨Nat.lt_succ_of_lt hlt, ?_⟩
  rw [chars]
  · rw [if_neg (Nat.not_lt.2 hcontrol), hread]
  · exact hquote
  · exact hbackslash

theorem reads_chars_escape {c : Char} {s more rest cs : List Char} (h : Reads (escape s) c more)
    (hmore : Reads (chars more) cs rest) : Reads (chars ('\\' :: s)) (c :: cs) rest := by
  obtain ⟨hlt, hread⟩ := hmore
  obtain ⟨hlt', hread'⟩ := h
  refine ⟨Nat.lt_succ_of_lt (Nat.lt_trans hlt hlt'), ?_⟩
  rw [chars, hread']
  dsimp only
  rw [hread]

/-- A character of a string is read as it is spelled, and then the others. -/
theorem reads_chars_cons {c : Char} {part more rest : List Char} {cs : List Char}
    (h : SpellsChar c part) (hmore : Reads (chars more) cs rest) :
    Reads (chars (part ++ more)) (c :: cs) rest := by
  cases h with
  | plain hplain => exact reads_chars_plain hplain hmore
  | short hshort => exact reads_chars_escape (reads_escape_short hshort more) hmore
  | unit hunit => exact reads_chars_escape (reads_escape_unit hunit more) hmore
  | @pair high low hc hhigh hlow =>
    have hescape := reads_escape_pair hc hhigh hlow more
    have happend : ('\\' :: 'u' :: (high ++ '\\' :: 'u' :: low)) ++ more =
        '\\' :: 'u' :: (high ++ '\\' :: 'u' :: (low ++ more)) := by
      simp
    rw [happend]
    exact reads_chars_escape hescape hmore

theorem reads_chars {cs : List Char} {parts : List (List Char)}
    (h : List.Forall₂ SpellsChar cs parts) (rest : List Char) :
    Reads (chars (parts.flatten ++ '"' :: rest)) cs rest := by
  induction h with
  | nil =>
    refine ⟨Nat.lt_succ_self _, ?_⟩
    simp only [List.flatten_nil, List.nil_append, chars]
  | cons hchar _ ih =>
    rw [List.flatten_cons, List.append_assoc]
    exact reads_chars_cons hchar ih

/-- A string, after its opening quote. -/
theorem reads_string {text : String} {cs : List Char} (h : SpellsString text ('"' :: cs))
    (rest : List Char) : Reads (string (cs ++ rest)) text rest := by
  obtain ⟨parts, hparts, hcs⟩ := h
  rw [List.cons.injEq] at hcs
  have hread := (reads_chars hparts rest).map String.ofList
  rw [String.ofList_toList] at hread
  rw [hcs.2, List.append_assoc]
  exact hread

/-! ### Strings that are skipped -/

theorem skips_escape_short {c letter : Char} (h : (letter, c) ∈ shortEscapes) (rest : List Char) :
    Reads (skipEscape (letter :: rest)) () rest := by
  simp only [shortEscapes, List.mem_cons, Prod.mk.injEq, List.not_mem_nil, or_false] at h
  rcases h with ⟨rfl, -⟩ | ⟨rfl, -⟩ | ⟨rfl, -⟩ | ⟨rfl, -⟩ | ⟨rfl, -⟩ | ⟨rfl, -⟩ | ⟨rfl, -⟩ |
    ⟨rfl, -⟩ <;> exact ⟨Nat.lt_succ_self _, rfl⟩

theorem skips_escape_unit {n : Nat} {digits : List Char} (h : HexUnit n digits)
    (rest : List Char) : Reads (skipEscape ('u' :: (digits ++ rest))) () rest := by
  obtain ⟨hlt, hread⟩ := reads_hexUnit h rest
  refine ⟨Nat.lt_succ_of_lt hlt, ?_⟩
  simp only [skipEscape, hread]
  rfl

theorem skips_chars_plain {c : Char} {more rest : List Char} (h : IsPlain c)
    (hmore : Reads (skipChars more) () rest) : Reads (skipChars (c :: more)) () rest := by
  obtain ⟨hcontrol, hquote, hbackslash⟩ := h
  obtain ⟨hlt, hread⟩ := hmore
  refine ⟨Nat.lt_succ_of_lt hlt, ?_⟩
  rw [skipChars]
  · rw [if_neg (Nat.not_lt.2 hcontrol), hread]
    rfl
  · exact hquote
  · exact hbackslash

theorem skips_chars_escape {s more rest : List Char} (h : Reads (skipEscape s) () more)
    (hmore : Reads (skipChars more) () rest) : Reads (skipChars ('\\' :: s)) () rest := by
  obtain ⟨hlt, hread⟩ := hmore
  obtain ⟨hlt', hread'⟩ := h
  refine ⟨Nat.lt_succ_of_lt (Nat.lt_trans hlt hlt'), ?_⟩
  rw [skipChars, hread']
  dsimp only
  rw [hread]
  rfl

theorem skips_chars {parts : List (List Char)} (h : ∀ part ∈ parts, StringPart part)
    (rest : List Char) : Reads (skipChars (parts.flatten ++ '"' :: rest)) () rest := by
  induction parts with
  | nil =>
    refine ⟨Nat.lt_succ_self _, ?_⟩
    simp only [List.flatten_nil, List.nil_append, skipChars]
  | cons part parts ih =>
    have hmore := ih fun p hp => h p (List.mem_cons_of_mem part hp)
    rw [List.flatten_cons, List.append_assoc]
    cases h part List.mem_cons_self with
    | plain hplain => exact skips_chars_plain hplain hmore
    | short hshort => exact skips_chars_escape (skips_escape_short hshort _) hmore
    | unit hunit => exact skips_chars_escape (skips_escape_unit hunit _) hmore

/-- A string that is skipped, after its opening quote. -/
theorem skips_string {cs : List Char} (h : StringText ('"' :: cs)) (rest : List Char) :
    Reads (skipChars (cs ++ rest)) () rest := by
  obtain ⟨parts, hparts, hcs⟩ := h
  rw [List.cons.injEq] at hcs
  rw [hcs.2, List.append_assoc]
  exact skips_chars hparts rest

end LogForwarding.Json
