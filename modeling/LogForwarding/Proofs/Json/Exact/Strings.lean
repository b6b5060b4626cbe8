/-
# What is read as a string spells it

The other direction of the lemmas on strings: where a reader gives a value and
leaves a rest, the text before the rest is one that the grammar has for the
value. The texts are put together along the recursion of the readers.

Key theorems: `Json.exists_spells_string`, `Json.exists_stringText`.
-/
import LogForwarding.Proofs.Json.Strings

namespace LogForwarding.Json

variable {α β : Type} {s t rest : List Char}

/-! ### Outcomes taken apart -/

theorem not_reads_error {fault : ReadFault} {value : α} :
    ¬ Reads (.error fault : Except ReadFault (Read α s)) value rest :=
  fun ⟨_, h⟩ => nomatch h

theorem reads_ok_iff {value value' : α} {rest' : List Char} {hlt : rest'.length < s.length} :
    Reads (.ok ⟨value', rest', hlt⟩) value rest ↔ value' = value ∧ rest' = rest := by
  constructor
  · rintro ⟨hlt, h⟩
    cases h
    exact ⟨rfl, rfl⟩
  · rintro ⟨rfl, rfl⟩
    exact ⟨hlt, rfl⟩

theorem Reads.of_eq {outcome : Except ReadFault (Read α s)} {r : Read α s}
    (h : outcome = .ok r) (hrest : r.rest = rest) : Reads outcome r.value rest := by
  subst hrest
  exact ⟨r.shorter, h⟩

theorem Reads.of_map {outcome : Except ReadFault (Read α s)} {f : α → β} {b : β}
    (h : Reads (outcome.map (·.map f)) b rest) : ∃ a, Reads outcome a rest ∧ f a = b := by
  obtain ⟨hlt, h⟩ := h
  cases outcome with
  | error fault => cases h
  | ok r =>
    cases h
    exact ⟨r.value, ⟨r.shorter, rfl⟩, rfl⟩

theorem Reads.of_widen {outcome : Except ReadFault (Read α s)} {value : α}
    {hle : s.length ≤ t.length} (h : Reads (outcome.map (·.widen hle)) value rest) :
    Reads outcome value rest := by
  obtain ⟨hlt, h⟩ := h
  cases outcome with
  | error fault => cases h
  | ok r =>
    cases h
    exact ⟨r.shorter, rfl⟩

/-! ### Blanks -/

theorem mem_of_isBlank {c : Char} (h : isBlank c = true) : c ∈ [' ', '\t', '\n', '\r'] := by
  simp only [isBlank, Bool.or_eq_true, beq_iff_eq] at h
  simp only [List.mem_cons, List.not_mem_nil, or_false]
  tauto

/-- What is skipped before a character is blank. -/
theorem exists_blanks (s : List Char) : ∃ blanks, Blanks blanks ∧ s = blanks ++ skipBlanks s := by
  refine ⟨s.takeWhile isBlank, ?_, List.takeWhile_append_dropWhile.symm⟩
  exact fun c hc => mem_of_isBlank (List.all_eq_true.1 List.all_takeWhile c hc)

/-! ### Escapes -/

theorem isDigit_iff {c : Char} : c.isDigit = true ↔ 48 ≤ c.toNat ∧ c.toNat ≤ 57 := by
  show (decide ('0'.val ≤ c.val) && decide (c.val ≤ '9'.val)) = true ↔ _
  simp only [Bool.and_eq_true, decide_eq_true_eq, UInt32.le_iff_toNat_le]
  exact Iff.rfl

/-- The digits of a range stand for consecutive numbers. -/
theorem hexDigit_of_range {c : Char} {base offset count : Nat}
    (hall : ∀ i < count, HexDigit (i + offset) (Char.ofNat (base + i))) (hle : base ≤ c.toNat)
    (hlt : c.toNat < base + count) : HexDigit (c.toNat - base + offset) c := by
  have hchar : Char.ofNat (base + (c.toNat - base)) = c := by
    rw [Nat.add_sub_cancel' hle, Char.ofNat_toNat]
  have h := hall (c.toNat - base) (by omega)
  rwa [hchar] at h

theorem hexDigit_of_hexValue? {n : Nat} {c : Char} (h : hexValue? c = some n) : HexDigit n c := by
  unfold hexValue? at h
  split at h
  · rename_i hc
    obtain ⟨hle, hge⟩ := isDigit_iff.1 hc
    obtain rfl : c.toNat - 48 = n := Option.some.inj h
    exact @hexDigit_of_range c 48 0 10
      (by unfold HexDigit; decide) hle (by omega)
  · split at h
    · rename_i hc
      have hle : 97 ≤ c.toNat := UInt32.le_iff_toNat_le.1 hc.1
      have hge : c.toNat ≤ 102 := UInt32.le_iff_toNat_le.1 hc.2
      obtain rfl : c.toNat - 97 + 10 = n := Option.some.inj h
      exact @hexDigit_of_range c 97 10 6
        (by unfold HexDigit; decide) hle (by omega)
    · split at h
      · rename_i hc
        have hle : 65 ≤ c.toNat := UInt32.le_iff_toNat_le.1 hc.1
        have hge : c.toNat ≤ 70 := UInt32.le_iff_toNat_le.1 hc.2
        obtain rfl : c.toNat - 65 + 10 = n := Option.some.inj h
        exact @hexDigit_of_range c 65 10 6
          (by unfold HexDigit; decide) hle (by omega)
      · cases h

theorem hexUnit_of_hexNumber? {n : Nat} {a b c d : Char} (h : hexNumber? [a, b, c, d] = some n) :
    HexUnit n [a, b, c, d] := by
  simp only [hexNumber?, List.foldlM_cons, List.foldlM_nil, Option.bind_eq_bind,
    Option.bind_eq_some_iff, Option.map_eq_some_iff, Option.pure_def, Option.some.injEq] at h
  obtain ⟨_, ⟨i, hi, rfl⟩, _, ⟨j, hj, rfl⟩, _, ⟨k, hk, rfl⟩, _, ⟨l, hl, rfl⟩, rfl⟩ := h
  have hunit := HexUnit.digits (hexDigit_of_hexValue? hi) (hexDigit_of_hexValue? hj)
    (hexDigit_of_hexValue? hk) (hexDigit_of_hexValue? hl)
  have hvalue : 16 * (16 * (16 * (16 * 0 + i) + j) + k) + l = 4096 * i + 256 * j + 16 * k + l := by
    omega
  rw [hvalue]
  exact hunit

theorem exists_hexUnit {n : Nat} (h : Reads (hexUnit s) n rest) :
    ∃ digits, HexUnit n digits ∧ s = digits ++ rest := by
  obtain ⟨hlt, h⟩ := h
  unfold hexUnit at h
  split at h
  · rename_i a b c d more
    split at h
    · rename_i m hnumber
      cases h
      exact ⟨[a, b, c, d], hexUnit_of_hexNumber? hnumber, rfl⟩
    · cases h
  · split at h <;> cases h

theorem HexUnit.lt {n : Nat} {digits : List Char} (h : HexUnit n digits) : n < 0x10000 := by
  have hlt : ∀ {n : Nat} {c : Char}, HexDigit n c → n < 16 := by
    rintro n c (h | h) <;> exact (List.getElem?_eq_some_iff.1 h).1
  obtain ⟨ha, hb, hc, hd⟩ := h
  have := hlt ha
  have := hlt hb
  have := hlt hc
  have := hlt hd
  omega

theorem mem_of_letterEscape? {c letter : Char} (h : letterEscape? letter = some c) :
    (letter, c) ∈ shortEscapes := by
  unfold letterEscape? at h
  split at h <;> cases h <;> simp [shortEscapes]

theorem toNat_ofNat {n : Nat} (h : n < 0xd800 ∨ 0xdfff < n ∧ n < 0x110000) :
    (Char.ofNat n).toNat = n := by
  have hvalid : n.isValidChar := h
  unfold Char.ofNat
  rw [dif_pos hvalid]
  rfl

theorem exists_lowSurrogate {n : Nat} (h : Reads (lowSurrogate s) n rest) :
    ∃ digits, HexUnit n digits ∧ isLowSurrogate n = true ∧ s = '\\' :: 'u' :: (digits ++ rest) := by
  obtain ⟨hlt, h⟩ := h
  unfold lowSurrogate at h
  split at h
  · rename_i more
    split at h
    · cases h
    · rename_i unit hunit
      split at h
      · rename_i hlow
        cases h
        obtain ⟨digits, hdigits, heq⟩ := exists_hexUnit ⟨unit.shorter, hunit⟩
        exact ⟨digits, hdigits, hlow, congrArg (fun t => '\\' :: 'u' :: t) heq⟩
      · cases h
  all_goals cases h

/-- A unit that is no surrogate spells the character that it is the code of. -/
theorem spellsChar_unit {n : Nat} {digits : List Char} (h : HexUnit n digits)
    (hhigh : ¬ isHighSurrogate n = true) (hlow : ¬ isLowSurrogate n = true) :
    SpellsChar (Char.ofNat n) ('\\' :: 'u' :: digits) := by
  rw [isHighSurrogate_iff] at hhigh
  rw [isLowSurrogate_iff] at hlow
  have hlt : n < 0x10000 := h.lt
  have hnat : (Char.ofNat n).toNat = n := toNat_ofNat (by omega)
  exact .unit (hnat.symm ▸ h)

/-- Two surrogates spell the character that they make. -/
theorem spellsChar_pair {high low : Nat} {first second : List Char} (hfirst : HexUnit high first)
    (hsecond : HexUnit low second) (hhigh : isHighSurrogate high = true)
    (hlow : isLowSurrogate low = true) :
    SpellsChar (surrogatePair high low) ('\\' :: 'u' :: (first ++ '\\' :: 'u' :: second)) := by
  obtain ⟨hhigh, hhigh'⟩ := isHighSurrogate_iff.1 hhigh
  obtain ⟨hlow, hlow'⟩ := isLowSurrogate_iff.1 hlow
  have hnat : (surrogatePair high low).toNat =
      0x10000 + (high - 0xd800) * 0x400 + (low - 0xdc00) :=
    toNat_ofNat (by omega)
  have hdiv : 0xd800 + ((surrogatePair high low).toNat - 0x10000) / 0x400 = high := by
    omega
  have hmod : 0xdc00 + ((surrogatePair high low).toNat - 0x10000) % 0x400 = low := by
    omega
  exact .pair (by omega) (hdiv.symm ▸ hfirst) (hmod.symm ▸ hsecond)

/-- What an escape is read from, with its backslash, spells the character. -/
theorem exists_escape {c : Char} (h : Reads (escape s) c rest) :
    ∃ part, SpellsChar c ('\\' :: part) ∧ s = part ++ rest := by
  unfold escape at h
  split at h
  · exact absurd h not_reads_error
  · rename_i more
    split at h
    · exact absurd h not_reads_error
    · rename_i unit hunit
      obtain ⟨digits, hdigits, heq⟩ := exists_hexUnit (.of_eq hunit rfl)
      split at h
      · exact absurd h not_reads_error
      · rename_i hnotLow
        split at h
        · rename_i hhigh
          split at h
          · exact absurd h not_reads_error
          · rename_i low hlow
            obtain ⟨rfl, hrest⟩ := reads_ok_iff.1 h
            obtain ⟨digits', hdigits', his, heq'⟩ := exists_lowSurrogate (.of_eq hlow hrest)
            refine ⟨_, spellsChar_pair hdigits hdigits' hhigh his, ?_⟩
            calc 'u' :: more = 'u' :: (digits ++ unit.rest) := congrArg ('u' :: ·) heq
              _ = 'u' :: (digits ++ '\\' :: 'u' :: (digits' ++ rest)) := by rw [heq']
              _ = 'u' :: (digits ++ '\\' :: 'u' :: digits') ++ rest := by simp
        · rename_i hnotHigh
          obtain ⟨rfl, hrest⟩ := reads_ok_iff.1 h
          rw [hrest] at heq
          exact ⟨_, spellsChar_unit hdigits hnotHigh hnotLow, congrArg ('u' :: ·) heq⟩
  · rename_i letter more _
    split at h
    · rename_i e he
      obtain ⟨rfl, rfl⟩ := reads_ok_iff.1 h
      exact ⟨[letter], .short (mem_of_letterEscape? he), rfl⟩
    · exact absurd h not_reads_error

/-! ### Characters and strings -/

theorem exists_chars {cs : List Char} (h : Reads (chars s) cs rest) :
    ∃ parts, List.Forall₂ SpellsChar cs parts ∧ s = parts.flatten ++ '"' :: rest := by
  fun_induction chars s generalizing cs with
  | case1 | case3 | case4 | case6 | case7 => exact absurd h not_reads_error
  | case2 =>
    obtain ⟨rfl, rfl⟩ := reads_ok_iff.1 h
    exact ⟨[], .nil, rfl⟩
  | case5 s e hescape more hmore ih =>
    obtain ⟨rfl, hrest⟩ := reads_ok_iff.1 h
    obtain ⟨part, hpart, heq⟩ := exists_escape (.of_eq hescape rfl)
    obtain ⟨parts, hparts, heq'⟩ := ih (.of_eq hmore hrest)
    refine ⟨('\\' :: part) :: parts, .cons hpart hparts, ?_⟩
    calc '\\' :: s = '\\' :: (part ++ e.rest) := congrArg ('\\' :: ·) heq
      _ = '\\' :: (part ++ (parts.flatten ++ '"' :: rest)) := by rw [heq']
      _ = (('\\' :: part) :: parts).flatten ++ '"' :: rest := by simp
  | case8 c s hquote hslash hlow more hmore ih =>
    obtain ⟨rfl, hrest⟩ := reads_ok_iff.1 h
    obtain ⟨parts, hparts, heq⟩ := ih (.of_eq hmore hrest)
    have hplain : IsPlain c := ⟨Nat.le_of_not_lt hlow, hquote, hslash⟩
    exact ⟨[c] :: parts, .cons (.plain hplain) hparts, congrArg (c :: ·) heq⟩

/-- What is read as a string, with its opening quote, spells the string. -/
theorem exists_spells_string {text : String} (h : Reads (string s) text rest) :
    ∃ cs, SpellsString text cs ∧ '"' :: s = cs ++ rest := by
  obtain ⟨cs, hchars, rfl⟩ := Reads.of_map h
  obtain ⟨parts, hparts, heq⟩ := exists_chars hchars
  refine ⟨'"' :: (parts.flatten ++ ['"']), ⟨parts, ?_, rfl⟩, ?_⟩
  · rwa [String.toList_ofList]
  · rw [heq]
    simp

/-! ### Strings that are skipped -/

theorem exists_stringPart (h : Reads (skipEscape s) () rest) :
    ∃ part, StringPart ('\\' :: part) ∧ s = part ++ rest := by
  unfold skipEscape at h
  split at h
  · exact absurd h not_reads_error
  · rename_i more
    have hunit : ∃ n, Reads (hexUnit more) n rest := by
      cases hread : hexUnit more with
      | error fault =>
        rw [hread] at h
        exact absurd h not_reads_error
      | ok unit =>
        rw [hread] at h
        exact ⟨unit.value, .of_eq rfl (reads_ok_iff.1 h).2⟩
    obtain ⟨n, hunit⟩ := hunit
    obtain ⟨digits, hdigits, rfl⟩ := exists_hexUnit hunit
    exact ⟨'u' :: digits, .unit hdigits, rfl⟩
  · rename_i letter more _
    split at h
    · rename_i hsome
      obtain ⟨c, hc⟩ := Option.isSome_iff_exists.1 hsome
      obtain ⟨-, rfl⟩ := reads_ok_iff.1 h
      exact ⟨[letter], .short (mem_of_letterEscape? hc), rfl⟩
    · exact absurd h not_reads_error

theorem exists_skipChars (h : Reads (skipChars s) () rest) :
    ∃ parts : List (List Char), (∀ part ∈ parts, StringPart part) ∧
      s = parts.flatten ++ '"' :: rest := by
  revert h
  fun_induction skipChars s with
  | case1 | case3 | case5 => exact fun h => absurd h not_reads_error
  | case2 s =>
    intro h
    obtain ⟨-, rfl⟩ := reads_ok_iff.1 h
    exact ⟨[], by simp, rfl⟩
  | case4 s e hescape ih =>
    intro h
    obtain ⟨part, hpart, heq⟩ := exists_stringPart (.of_eq hescape rfl)
    obtain ⟨parts, hparts, heq'⟩ := ih h.of_widen
    refine ⟨('\\' :: part) :: parts, List.forall_mem_cons.2 ⟨hpart, hparts⟩, ?_⟩
    calc '\\' :: s = '\\' :: (part ++ e.rest) := congrArg ('\\' :: ·) heq
      _ = '\\' :: (part ++ (parts.flatten ++ '"' :: rest)) := by rw [heq']
      _ = (('\\' :: part) :: parts).flatten ++ '"' :: rest := by simp
  | case6 c s hquote hslash hlow ih =>
    intro h
    obtain ⟨parts, hparts, heq⟩ := ih h.of_widen
    have hplain : IsPlain c := ⟨Nat.le_of_not_lt hlow, hquote, hslash⟩
    exact ⟨[c] :: parts, List.forall_mem_cons.2 ⟨.plain hplain, hparts⟩, congrArg (c :: ·) heq⟩

/-- What is skipped as a string, with its opening quote, is one. -/
theorem exists_stringText (h : Reads (skipChars s) () rest) :
    ∃ cs, StringText cs ∧ '"' :: s = cs ++ rest := by
  obtain ⟨parts, hparts, rfl⟩ := exists_skipChars h
  exact ⟨'"' :: (parts.flatten ++ ['"']), ⟨parts, hparts, rfl⟩, by simp⟩

end LogForwarding.Json
