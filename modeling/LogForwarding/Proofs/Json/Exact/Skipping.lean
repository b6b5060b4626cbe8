/-
# What is skipped is a value

The other direction of the lemmas on values that do not matter: where one was
skipped, the text before the rest is one that the grammar has for a value, with
blanks before it. For each reader that looks into brackets it is said once how
it can have gone; the texts are then put together by induction on the length of
what is read.

Key theorems: `Json.exists_numberText`, `Json.exists_valueText`.
-/
import LogForwarding.Proofs.Json.Exact.Strings
import LogForwarding.Proofs.Json.Skipping

namespace LogForwarding.Json

variable {s t rest : List Char}

/-! ### Numbers -/

theorem Leaves.of_read {outcome : Except ReadFault (Read Unit t)}
    {hle : ∀ r : Read Unit t, r.rest.length ≤ s.length}
    (h : Leaves (outcome.map fun r => (⟨r.rest, hle r⟩ : Left s)) rest) :
    Reads outcome () rest := by
  obtain ⟨hlt, h⟩ := h
  cases outcome with
  | error fault => cases h
  | ok r =>
    cases h
    exact ⟨r.shorter, rfl⟩

theorem Leaves.of_map {outcome : Except ReadFault (Left t)}
    {hle : ∀ r : Left t, r.1.length ≤ s.length}
    (h : Leaves (outcome.map fun r => (⟨r.1, hle r⟩ : Left s)) rest) : Leaves outcome rest := by
  obtain ⟨hlt, h⟩ := h
  cases outcome with
  | error fault => cases h
  | ok r =>
    cases h
    exact ⟨r.2, rfl⟩

theorem Leaves.of_reads {outcome : Except ReadFault (Left t)}
    {hlt : ∀ r : Left t, r.1.length < s.length}
    (h : Reads (outcome.map fun r => (⟨(), r.1, hlt r⟩ : Read Unit s)) () rest) :
    Leaves outcome rest := by
  obtain ⟨hlt, h⟩ := h
  cases outcome with
  | error fault => cases h
  | ok r =>
    cases h
    exact ⟨r.2, rfl⟩

theorem exists_digits (h : Reads (skipDigits s) () rest) :
    ∃ digits, Digits digits ∧ s = digits ++ rest := by
  unfold skipDigits at h
  split at h
  · exact absurd h not_reads_error
  · rename_i c more
    split at h
    · rename_i hc
      obtain ⟨-, rfl⟩ := reads_ok_iff.1 h
      have hmore : ∀ d ∈ more.takeWhile Char.isDigit, d.isDigit = true :=
        List.all_eq_true.1 List.all_takeWhile
      refine ⟨c :: more.takeWhile Char.isDigit, ⟨List.cons_ne_nil _ _, ?_⟩, ?_⟩
      · exact List.forall_mem_cons.2 ⟨hc, hmore⟩
      · exact congrArg (c :: ·) List.takeWhile_append_dropWhile.symm
    · exact absurd h not_reads_error

theorem exists_exponent (h : Leaves (skipExponent s) rest) :
    ∃ exponent, ExponentPart exponent ∧ s = exponent ++ rest := by
  have hpart : ∀ (letter : Char) (sign more : List Char), letter ∈ ['e', 'E'] →
      sign ∈ [[], ['+'], ['-']] → Reads (skipDigits more) () rest →
      ∃ exponent, ExponentPart exponent ∧ letter :: (sign ++ more) = exponent ++ rest := by
    intro letter sign more hletter hsign hread
    obtain ⟨digits, hdigits, rfl⟩ := exists_digits hread
    exact ⟨letter :: (sign ++ digits), .digits hletter hsign hdigits, by simp⟩
  unfold skipExponent at h
  split at h
  · exact hpart 'e' ['+'] _ (by simp) (by simp) h.of_read
  · exact hpart 'e' ['-'] _ (by simp) (by simp) h.of_read
  · exact hpart 'E' ['+'] _ (by simp) (by simp) h.of_read
  · exact hpart 'E' ['-'] _ (by simp) (by simp) h.of_read
  · exact hpart 'e' [] _ (by simp) (by simp) h.of_read
  · exact hpart 'E' [] _ (by simp) (by simp) h.of_read
  · obtain ⟨_, h⟩ := h
    cases h
    exact ⟨[], .none, rfl⟩

theorem exists_fraction (h : Leaves (skipFraction s) rest) :
    ∃ fraction exponent, FractionPart fraction ∧ ExponentPart exponent ∧
      s = fraction ++ (exponent ++ rest) := by
  unfold skipFraction at h
  split at h
  · rename_i more
    split at h
    · obtain ⟨_, h⟩ := h
      cases h
    · rename_i digits hdigits
      obtain ⟨exponent, hexponent, heq⟩ := exists_exponent h.of_map
      obtain ⟨cs, hcs, hmore⟩ := exists_digits (.of_eq hdigits heq)
      exact ⟨'.' :: cs, exponent, .digits hcs, hexponent, congrArg ('.' :: ·) hmore⟩
  · obtain ⟨exponent, hexponent, rfl⟩ := exists_exponent h
    exact ⟨[], exponent, .none, hexponent, rfl⟩

theorem exists_unsigned (h : Reads (skipUnsigned s) () rest) :
    ∃ whole fraction exponent, WholePart whole ∧ FractionPart fraction ∧ ExponentPart exponent ∧
      s = whole ++ (fraction ++ (exponent ++ rest)) := by
  unfold skipUnsigned at h
  split at h
  · rename_i more
    split at h
    · obtain ⟨fraction, exponent, hf, he, rfl⟩ := exists_fraction (.of_reads h)
      exact ⟨['0'], fraction, exponent, .zero, hf, he, rfl⟩
    · exact absurd h not_reads_error
  · rename_i hzero
    split at h
    · exact absurd h not_reads_error
    · rename_i digits hdigits
      obtain ⟨fraction, exponent, hf, he, heq⟩ := exists_fraction (.of_reads h)
      obtain ⟨whole, hwhole, hs⟩ := exists_digits (.of_eq hdigits heq)
      refine ⟨whole, fraction, exponent, .digits hwhole ?_, hf, he, hs⟩
      intro hhead
      obtain ⟨more, rfl⟩ := List.head?_eq_some_iff.1 hhead
      exact hzero _ hs

/-- What is skipped as a number is one. -/
theorem exists_numberText (h : Reads (skipNumber s) () rest) :
    ∃ cs, NumberText cs ∧ s = cs ++ rest := by
  unfold skipNumber at h
  split at h
  · rename_i more
    obtain ⟨whole, fraction, exponent, hw, hf, he, rfl⟩ := exists_unsigned h.of_widen
    exact ⟨_, ⟨['-'], whole, fraction, exponent, by simp, hw, hf, he, rfl⟩, by simp⟩
  · obtain ⟨whole, fraction, exponent, hw, hf, he, rfl⟩ := exists_unsigned h
    exact ⟨_, ⟨[], whole, fraction, exponent, by simp, hw, hf, he, rfl⟩, by simp⟩

/-! ### Words and colons -/

theorem eq_append_of_word {ws : List Char} (h : word ws s = .ok rest) : s = ws ++ rest := by
  induction ws generalizing s with
  | nil =>
    cases h
    rfl
  | cons w ws ih =>
    cases s with
    | nil => cases h
    | cons c s =>
      rw [word] at h
      split at h
      · rename_i hc
        rw [hc, ih h, List.cons_append]
      · cases h

theorem exists_colon (h : Reads (colon s) () rest) :
    ∃ between, Blanks between ∧ s = between ++ ':' :: rest := by
  obtain ⟨between, hbetween, heq⟩ := exists_blanks s
  unfold colon at h
  split at h
  · exact absurd h not_reads_error
  · rename_i hskip
    obtain ⟨-, rfl⟩ := reads_ok_iff.1 h
    exact ⟨between, hbetween, hskip ▸ heq⟩
  · exact absurd h not_reads_error

theorem exists_scalar (h : Reads (skipScalar s) () rest) :
    ∃ cs, ValueText cs ∧ s = cs ++ rest := by
  have hword : ∀ (c : Char) (letters more : List Char),
      Reads (skipWord letters (c :: more)) () rest → c :: more = (c :: letters) ++ rest := by
    intro c letters more hread
    unfold skipWord at hread
    dsimp only at hread
    split at hread
    · exact absurd hread not_reads_error
    · rename_i hafter
      obtain ⟨-, rfl⟩ := reads_ok_iff.1 hread
      rw [eq_append_of_word hafter, List.cons_append]
  unfold skipScalar at h
  split at h
  · have hnull : ValueText ['n', 'u', 'l', 'l'] := @ValueText.word "null" (by simp)
    exact ⟨_, hnull, hword 'n' _ _ h⟩
  · have htrue : ValueText ['t', 'r', 'u', 'e'] := @ValueText.word "true" (by simp)
    exact ⟨_, htrue, hword 't' _ _ h⟩
  · have hfalse : ValueText ['f', 'a', 'l', 's', 'e'] := @ValueText.word "false" (by simp)
    exact ⟨_, hfalse, hword 'f' _ _ h⟩
  · split at h
    · obtain ⟨cs, hcs, heq⟩ := exists_numberText h
      exact ⟨cs, .number hcs, heq⟩
    · exact absurd h not_reads_error
  · exact absurd h not_reads_error

/-! ### Arrays and objects -/

/-- Brackets with nothing but blanks between them. -/
theorem exists_bracketed_nil {opening closing : Char} {more : List Char}
    (h : skipBlanks more = closing :: rest) :
    ∃ cs, Bracketed opening closing [] cs ∧ opening :: more = cs ++ rest := by
  obtain ⟨inner, hinner, heq⟩ := exists_blanks more
  rw [h] at heq
  refine ⟨_, .none hinner, ?_⟩
  rw [heq]
  simp

/-- Brackets with parts between them. -/
theorem exists_bracketed_cons {opening closing : Char} {part : List Char}
    {parts : List (List Char)} :
    ∃ cs, Bracketed opening closing (part :: parts) cs ∧
      opening :: (part ++ (parts.flatMap (',' :: ·) ++ closing :: rest)) = cs ++ rest :=
  ⟨_, .some, by simp⟩

theorem Reads.length_lt {α : Type} {outcome : Except ReadFault (Read α s)} {value : α}
    (h : Reads outcome value rest) : rest.length < s.length := by
  obtain ⟨hlt, -⟩ := h
  exact hlt

theorem skipValue_cases (h : Reads (skipValue s) () rest) :
    ∃ c more, skipBlanks s = c :: more ∧
      (c = '[' ∧ (skipBlanks more = ']' :: rest ∨ Reads (skipElements more) () rest) ∨
        c = '\x7b' ∧ (skipBlanks more = '\x7d' :: rest ∨ Reads (skipMembers more) () rest) ∨
        c = '"' ∧ Reads (skipChars more) () rest ∨
        Reads (skipScalar (c :: more)) () rest) := by
  unfold skipValue at h
  split at h
  · exact absurd h not_reads_error
  · rename_i c more hskip
    refine ⟨c, more, hskip, ?_⟩
    dsimp only at h
    split at h
    · rename_i hc
      refine .inl ⟨hc, ?_⟩
      split at h
      · rename_i hclose
        obtain ⟨-, rfl⟩ := reads_ok_iff.1 h
        exact .inl hclose
      · exact .inr h.of_widen
    · split at h
      · rename_i hc
        refine .inr (.inl ⟨hc, ?_⟩)
        split at h
        · rename_i hclose
          obtain ⟨-, rfl⟩ := reads_ok_iff.1 h
          exact .inl hclose
        · exact .inr h.of_widen
      · split at h
        · rename_i hc
          exact .inr (.inr (.inl ⟨hc, h.of_widen⟩))
        · exact .inr (.inr (.inr h.of_widen))

theorem skipElements_cases (h : Reads (skipElements s) () rest) :
    ∃ mid, Reads (skipValue s) () mid ∧
      (skipBlanks mid = ']' :: rest ∨
        ∃ more, skipBlanks mid = ',' :: more ∧ Reads (skipElements more) () rest) := by
  unfold skipElements at h
  split at h
  · exact absurd h not_reads_error
  · rename_i element helement
    refine ⟨element.rest, .of_eq helement rfl, ?_⟩
    split at h
    · exact absurd h not_reads_error
    · rename_i hclose
      obtain ⟨-, rfl⟩ := reads_ok_iff.1 h
      exact .inl hclose
    · rename_i more hcomma
      exact .inr ⟨more, hcomma, h.of_widen⟩
    · exact absurd h not_reads_error

theorem skipMembers_cases (h : Reads (skipMembers s) () rest) :
    ∃ quoted key mark mid, skipBlanks s = '"' :: quoted ∧ Reads (skipChars quoted) () key ∧
      Reads (colon key) () mark ∧ Reads (skipValue mark) () mid ∧
      (skipBlanks mid = '\x7d' :: rest ∨
        ∃ more, skipBlanks mid = ',' :: more ∧ Reads (skipMembers more) () rest) := by
  unfold skipMembers at h
  split at h
  · exact absurd h not_reads_error
  · rename_i quoted hskip
    dsimp only at h
    split at h
    · exact absurd h not_reads_error
    · rename_i key hkey
      split at h
      · exact absurd h not_reads_error
      · rename_i mark hmark
        split at h
        · exact absurd h not_reads_error
        · rename_i value hvalue
          refine ⟨quoted, key.rest, mark.rest, value.rest, hskip, .of_eq hkey rfl,
            .of_eq hmark rfl, .of_eq hvalue rfl, ?_⟩
          split at h
          · exact absurd h not_reads_error
          · rename_i hclose
            obtain ⟨-, rfl⟩ := reads_ok_iff.1 h
            exact .inl hclose
          · rename_i more hcomma
            exact .inr ⟨more, hcomma, h.of_widen⟩
          · exact absurd h not_reads_error
  · exact absurd h not_reads_error

/-- What follows a part between brackets, put together again. -/
theorem exists_tail {closing : Char} {mid : List Char} {Texts : List (List Char) → Prop}
    (hnil : Texts [])
    (hend : skipBlanks mid = closing :: rest ∨
      ∃ more, skipBlanks mid = ',' :: more ∧
        ∃ part parts, Texts (part :: parts) ∧
          more = part ++ (parts.flatMap (',' :: ·) ++ closing :: rest)) :
    ∃ after parts, Blanks after ∧ Texts parts ∧
      mid = after ++ (parts.flatMap (',' :: ·) ++ closing :: rest) := by
  obtain ⟨after, hafter, heq⟩ := exists_blanks mid
  obtain hclose | ⟨more, hcomma, part, parts, hparts, rfl⟩ := hend
  · rw [hclose] at heq
    exact ⟨after, [], hafter, hnil, heq⟩
  · rw [hcomma] at heq
    refine ⟨after, part :: parts, hafter, hparts, heq.trans ?_⟩
    simp

-- What is read is cut at the same places at which the readers call each other, so the induction is
-- on its length; only the first element of an array is as long as all of them.
mutual

/-- **What is skipped as a value is one**, with blanks before it. -/
theorem exists_valueText {s rest : List Char} (h : Reads (skipValue s) () rest) :
    ∃ blanks cs, Blanks blanks ∧ ValueText cs ∧ s = blanks ++ (cs ++ rest) := by
  obtain ⟨c, more, hskip, hcases⟩ := skipValue_cases h
  have hlt : more.length < s.length := lt_of_skipBlanks hskip
  have hcore : ∃ cs, ValueText cs ∧ c :: more = cs ++ rest := by
    obtain ⟨rfl, hclose | helements⟩ | ⟨rfl, hclose | hmembers⟩ | ⟨rfl, hchars⟩ | hscalar := hcases
    · obtain ⟨cs, hcs, heq⟩ := exists_bracketed_nil hclose
      exact ⟨cs, .array .nil hcs, heq⟩
    · obtain ⟨part, parts, hparts, rfl⟩ := exists_elementTexts helements
      obtain ⟨cs, hcs, heq⟩ := exists_bracketed_cons
      exact ⟨cs, .array hparts hcs, heq⟩
    · obtain ⟨cs, hcs, heq⟩ := exists_bracketed_nil hclose
      exact ⟨cs, .object .nil hcs, heq⟩
    · obtain ⟨part, parts, hparts, rfl⟩ := exists_memberTexts hmembers
      obtain ⟨cs, hcs, heq⟩ := exists_bracketed_cons
      exact ⟨cs, .object hparts hcs, heq⟩
    · obtain ⟨cs, hcs, heq⟩ := exists_stringText hchars
      exact ⟨cs, .string hcs, heq⟩
    · exact exists_scalar hscalar
  obtain ⟨blanks, hblanks, heq⟩ := exists_blanks s
  obtain ⟨cs, hcs, hmore⟩ := hcore
  rw [hskip, hmore] at heq
  exact ⟨blanks, cs, hblanks, hcs, heq⟩
termination_by (s.length, 0)

theorem exists_elementTexts {s rest : List Char} (h : Reads (skipElements s) () rest) :
    ∃ part parts, ElementTexts (part :: parts) ∧
      s = part ++ (parts.flatMap (',' :: ·) ++ ']' :: rest) := by
  obtain ⟨mid, hvalue, hend⟩ := skipElements_cases h
  have hmid : mid.length < s.length := hvalue.length_lt
  obtain ⟨before, cs, hbefore, hcs, rfl⟩ := exists_valueText hvalue
  obtain ⟨after, parts, hafter, hparts, rfl⟩ := exists_tail .nil
    (hend.imp_right fun ⟨more, hcomma, hmore⟩ =>
      have hlt : more.length < mid.length := lt_of_skipBlanks hcomma
      ⟨more, hcomma, exists_elementTexts hmore⟩)
  exact ⟨before ++ cs ++ after, parts, .cons hbefore hcs hafter hparts, by simp⟩
termination_by (s.length, 1)

theorem exists_memberTexts {s rest : List Char} (h : Reads (skipMembers s) () rest) :
    ∃ part parts, MemberTexts (part :: parts) ∧
      s = part ++ (parts.flatMap (',' :: ·) ++ '\x7d' :: rest) := by
  obtain ⟨quoted, key, mark, mid, hskip, hkey, hmark, hvalue, hend⟩ := skipMembers_cases h
  have hmarkLt : mark.length < s.length :=
    calc mark.length < key.length := hmark.length_lt
      _ < quoted.length := hkey.length_lt
      _ < s.length := lt_of_skipBlanks hskip
  have hmidLt : mid.length < s.length := Nat.lt_trans hvalue.length_lt hmarkLt
  obtain ⟨before, hbefore, heq⟩ := exists_blanks s
  obtain ⟨text, htext, hquoted⟩ := exists_stringText hkey
  obtain ⟨between, hbetween, rfl⟩ := exists_colon hmark
  obtain ⟨gap, value, hgap, hcs, rfl⟩ := exists_valueText hvalue
  obtain ⟨after, parts, hafter, hparts, rfl⟩ := exists_tail .nil
    (hend.imp_right fun ⟨more, hcomma, hmore⟩ =>
      have hlt : more.length < mid.length := lt_of_skipBlanks hcomma
      ⟨more, hcomma, exists_memberTexts hmore⟩)
  refine ⟨_, parts, .cons hbefore htext hbetween hgap hcs hafter hparts, ?_⟩
  rw [heq, hskip, hquoted]
  simp
termination_by (s.length, 0)

end

end LogForwarding.Json
