/-
# Values that do not matter are skipped

Whatever the grammar has for a value, the reader that skips values passes over
the whole of it. A number does not say where it ends, so what follows a value
must not carry a number on; between brackets a blank, a comma or the closing
bracket follows, and none of them does.

Key definitions: `Json.Leaves`, `Json.Stops`, `Json.Skipped`.
Key theorems: `Json.skips_number`, `Json.skipped_value`.
-/
import LogForwarding.Json.Skip
import LogForwarding.Proofs.Json.Strings

namespace LogForwarding.Json

variable {s : List Char}

/-- The rest is left. -/
def Leaves (outcome : Except ReadFault (Left s)) (rest : List Char) : Prop :=
  ∃ h, outcome = .ok ⟨rest, h⟩

/-- A number does not go on there. -/
def Stops (rest : List Char) : Prop :=
  ∀ c ∈ rest.head?, c.isDigit = false ∧ c ≠ '.' ∧ c ≠ 'e' ∧ c ≠ 'E'

/-! ### Numbers -/

theorem dropWhile_isDigit {cs rest : List Char} (h : ∀ c ∈ cs, c.isDigit = true)
    (hrest : ∀ c ∈ rest.head?, c.isDigit = false) :
    (cs ++ rest).dropWhile Char.isDigit = rest := by
  rw [List.dropWhile_append_of_pos h]
  cases rest with
  | nil => rfl
  | cons c rest => exact List.dropWhile_cons_of_neg (by simp [hrest c rfl])

theorem skips_digits {cs rest : List Char} (h : Digits cs)
    (hrest : ∀ c ∈ rest.head?, c.isDigit = false) : Reads (skipDigits (cs ++ rest)) () rest := by
  obtain ⟨hne, hdigits⟩ := h
  cases cs with
  | nil => exact absurd rfl hne
  | cons c cs =>
    obtain ⟨hc, hcs⟩ := List.forall_mem_cons.1 hdigits
    refine ⟨Nat.lt_succ_of_le ?_, ?_⟩
    · rw [List.append_eq, List.length_append]
      exact Nat.le_add_left _ _
    · simp only [List.cons_append, skipDigits, hc, if_true, dropWhile_isDigit hcs hrest]

/-- Digits begin with a digit. -/
theorem Digits.append_ne {cs : List Char} (h : Digits cs) {d : Char} (hd : d.isDigit = false)
    (rest more : List Char) : cs ++ rest ≠ d :: more := by
  obtain ⟨hne, hdigits⟩ := h
  cases cs with
  | nil => exact absurd rfl hne
  | cons c cs =>
    intro heq
    have hc : c.isDigit = true := hdigits c List.mem_cons_self
    rw [List.cons_append, List.cons.injEq] at heq
    rw [heq.1, hd] at hc
    cases hc

theorem Stops.ne_cons {rest : List Char} (h : Stops rest) {c : Char}
    (hc : c.isDigit = true ∨ c = '.' ∨ c = 'e' ∨ c = 'E') (more : List Char) :
    rest ≠ c :: more := by
  rintro rfl
  obtain ⟨hdigit, hpoint, he, hE⟩ := h c rfl
  simp_all

theorem Stops.isDigit {rest : List Char} (h : Stops rest) : ∀ c ∈ rest.head?, c.isDigit = false :=
  fun c hc => (h c hc).1

theorem skips_exponent_digits {letter : Char} {sign s rest : List Char}
    (hletter : letter ∈ ['e', 'E']) (hsign : sign ∈ [[], ['+'], ['-']])
    (hplus : ∀ more, s ≠ '+' :: more) (hminus : ∀ more, s ≠ '-' :: more)
    (h : Reads (skipDigits s) () rest) : Leaves (skipExponent (letter :: (sign ++ s))) rest := by
  obtain ⟨hlt, hskip⟩ := h
  have hle : rest.length ≤ (letter :: (sign ++ s)).length := by
    rw [List.length_cons, List.length_append]
    omega
  simp only [List.mem_cons, List.not_mem_nil, or_false] at hletter hsign
  rcases hletter with rfl | rfl <;> rcases hsign with rfl | rfl | rfl <;> refine ⟨hle, ?_⟩
  · exact (skipExponent.eq_5 s hplus hminus).trans (by rw [hskip]; rfl)
  · exact (skipExponent.eq_1 s).trans (by rw [hskip]; rfl)
  · exact (skipExponent.eq_2 s).trans (by rw [hskip]; rfl)
  · exact (skipExponent.eq_6 s hplus hminus).trans (by rw [hskip]; rfl)
  · exact (skipExponent.eq_3 s).trans (by rw [hskip]; rfl)
  · exact (skipExponent.eq_4 s).trans (by rw [hskip]; rfl)

theorem skips_exponent {cs rest : List Char} (h : ExponentPart cs) (hrest : Stops rest) :
    Leaves (skipExponent (cs ++ rest)) rest := by
  cases h with
  | none =>
    refine ⟨Nat.le_refl _, skipExponent.eq_7 rest ?_ ?_ ?_ ?_ ?_ ?_⟩ <;>
      exact fun more => hrest.ne_cons (by decide) _
  | @digits letter sign cs hletter hsign h =>
    rw [List.cons_append, List.append_assoc]
    exact skips_exponent_digits hletter hsign (h.append_ne rfl rest) (h.append_ne rfl rest)
      (skips_digits h hrest.isDigit)

/-- What follows the digits before an exponent is no digit and no point. -/
theorem ExponentPart.head_append {cs rest : List Char} (h : ExponentPart cs) (hrest : Stops rest) :
    ∀ c ∈ (cs ++ rest).head?, c.isDigit = false ∧ c ≠ '.' := by
  cases h with
  | none => exact fun c hc => ⟨(hrest c hc).1, (hrest c hc).2.1⟩
  | @digits letter sign cs hletter hsign h =>
    intro c hc
    have hhead : letter = c := Option.some.inj hc
    rw [← hhead]
    simp only [List.mem_cons, List.not_mem_nil, or_false] at hletter
    rcases hletter with rfl | rfl <;> decide

/-- What follows the whole part of a number is no digit. -/
theorem FractionPart.head_append {fraction exponent rest : List Char} (hf : FractionPart fraction)
    (he : ExponentPart exponent) (hrest : Stops rest) :
    ∀ c ∈ (fraction ++ (exponent ++ rest)).head?, c.isDigit = false := by
  cases hf with
  | none => exact fun c hc => (he.head_append hrest c hc).1
  | digits h =>
    intro c hc
    have hhead : '.' = c := Option.some.inj hc
    rw [← hhead]
    decide

theorem skips_fraction {fraction exponent rest : List Char} (hf : FractionPart fraction)
    (he : ExponentPart exponent) (hrest : Stops rest) :
    Leaves (skipFraction (fraction ++ (exponent ++ rest))) rest := by
  obtain ⟨hle, hskip⟩ := skips_exponent he hrest
  cases hf with
  | none =>
    refine ⟨hle, (skipFraction.eq_2 _ fun more heq => ?_).trans hskip⟩
    have heq : exponent ++ rest = '.' :: more := heq
    exact (he.head_append hrest '.' (by rw [heq]; rfl)).2 rfl
  | @digits cs h =>
    obtain ⟨hlt, hdigits⟩ := skips_digits h fun c hc => (he.head_append hrest c hc).1
    refine ⟨Nat.le_succ_of_le (Nat.le_trans hle (Nat.le_of_lt hlt)), ?_⟩
    simp only [List.cons_append, skipFraction, hdigits, hskip]
    rfl

theorem WholePart.isDigits {cs : List Char} (h : WholePart cs) : Digits cs := by
  cases h with
  | zero => exact ⟨List.cons_ne_nil _ _, List.forall_mem_singleton.2 rfl⟩
  | digits h => exact h

theorem skips_unsigned {whole fraction exponent rest : List Char} (hw : WholePart whole)
    (hf : FractionPart fraction) (he : ExponentPart exponent) (hrest : Stops rest) :
    Reads (skipUnsigned (whole ++ (fraction ++ (exponent ++ rest)))) () rest := by
  obtain ⟨hle, hskip⟩ := skips_fraction hf he hrest
  have hhead := hf.head_append he hrest
  cases hw with
  | zero =>
    have hnone : (fraction ++ (exponent ++ rest)).takeWhile Char.isDigit = [] := by
      cases htext : fraction ++ (exponent ++ rest) with
      | nil => rfl
      | cons c more =>
        have hc : c.isDigit = false := hhead c (by rw [htext]; rfl)
        exact List.takeWhile_cons_of_neg (by simp [hc])
    refine ⟨Nat.lt_succ_of_le hle, ?_⟩
    simp only [List.cons_append, List.nil_append, skipUnsigned, hnone, hskip]
    rfl
  | digits h hzero =>
    obtain ⟨hlt, hdigits⟩ := skips_digits h hhead
    have hne : ∀ more, whole ++ (fraction ++ (exponent ++ rest)) = '0' :: more → False := by
      intro more heq
      cases whole with
      | nil => exact h.1 rfl
      | cons c cs => exact hzero (congrArg some (List.cons.inj heq).1)
    refine ⟨Nat.lt_of_le_of_lt hle hlt, (skipUnsigned.eq_2 _ hne).trans ?_⟩
    simp only [hdigits, hskip]
    rfl

/-- A number is skipped, where it does not go on. -/
theorem skips_number {cs rest : List Char} (h : NumberText cs) (hrest : Stops rest) :
    Reads (skipNumber (cs ++ rest)) () rest := by
  obtain ⟨sign, whole, fraction, exponent, hsign, hw, hf, he, rfl⟩ := h
  obtain ⟨hlt, hskip⟩ := skips_unsigned hw hf he hrest
  have happend : sign ++ whole ++ fraction ++ exponent ++ rest =
      sign ++ (whole ++ (fraction ++ (exponent ++ rest))) := by
    simp only [List.append_assoc]
  rw [happend]
  simp only [List.mem_cons, List.not_mem_nil, or_false] at hsign
  rcases hsign with rfl | rfl
  · exact ⟨hlt, (skipNumber.eq_2 _ fun more => hw.isDigits.append_ne rfl _ more).trans hskip⟩
  · refine ⟨Nat.lt_succ_of_lt hlt, ?_⟩
    simp only [List.cons_append, List.nil_append, skipNumber, hskip]
    rfl

/-! ### Steps of the reader that skips values -/

section

variable {rest after more : List Char}

theorem skips_emptyArray (h : skipBlanks s = '[' :: rest)
    (hclose : skipBlanks rest = ']' :: after) :
    Reads (skipValue s) () after := by
  unfold skipValue
  split
  · simp_all
  · rename_i c tail heq
    obtain ⟨rfl, rfl⟩ := List.cons.inj (h.symm.trans heq)
    rw [if_pos rfl]
    split
    · rename_i heq
      obtain ⟨-, rfl⟩ := List.cons.inj (hclose.symm.trans heq)
      exact ⟨_, rfl⟩
    · rename_i hne
      exact absurd hclose (hne after)

theorem skips_array (h : skipBlanks s = '[' :: rest)
    (hopen : ∀ after, skipBlanks rest ≠ ']' :: after)
    (helements : Reads (skipElements rest) () after) :
    Reads (skipValue s) () after := by
  unfold skipValue
  split
  · simp_all
  · rename_i c tail heq
    obtain ⟨rfl, rfl⟩ := List.cons.inj (h.symm.trans heq)
    rw [if_pos rfl]
    split
    · rename_i heq
      exact absurd heq (hopen _)
    · exact helements.widen _

theorem skips_emptyObject (h : skipBlanks s = '\x7b' :: rest)
    (hclose : skipBlanks rest = '\x7d' :: after) : Reads (skipValue s) () after := by
  unfold skipValue
  split
  · simp_all
  · rename_i c tail heq
    obtain ⟨rfl, rfl⟩ := List.cons.inj (h.symm.trans heq)
    rw [if_neg (by decide), if_pos rfl]
    split
    · rename_i heq
      obtain ⟨-, rfl⟩ := List.cons.inj (hclose.symm.trans heq)
      exact ⟨_, rfl⟩
    · rename_i hne
      exact absurd hclose (hne after)

theorem skips_object (h : skipBlanks s = '\x7b' :: rest)
    (hopen : ∀ after, skipBlanks rest ≠ '\x7d' :: after)
    (hmembers : Reads (skipMembers rest) () after) : Reads (skipValue s) () after := by
  unfold skipValue
  split
  · simp_all
  · rename_i c tail heq
    obtain ⟨rfl, rfl⟩ := List.cons.inj (h.symm.trans heq)
    rw [if_neg (by decide), if_pos rfl]
    split
    · rename_i heq
      exact absurd heq (hopen _)
    · exact hmembers.widen _

theorem skips_quoted (h : skipBlanks s = '"' :: rest) (hchars : Reads (skipChars rest) () after) :
    Reads (skipValue s) () after := by
  unfold skipValue
  split
  · simp_all
  · rename_i c tail heq
    obtain ⟨rfl, rfl⟩ := List.cons.inj (h.symm.trans heq)
    rw [if_neg (by decide), if_neg (by decide), if_pos rfl]
    exact hchars.widen _

theorem skips_scalar {c : Char} (h : skipBlanks s = c :: rest) (hc : c ∉ ['[', '\x7b', '"'])
    (hscalar : Reads (skipScalar (c :: rest)) () after) : Reads (skipValue s) () after := by
  simp only [List.mem_cons, List.not_mem_nil, or_false, not_or] at hc
  obtain ⟨hbracket, hbrace, hquote⟩ := hc
  unfold skipValue
  split
  · simp_all
  · rename_i c tail heq
    obtain ⟨rfl, rfl⟩ := List.cons.inj (h.symm.trans heq)
    rw [if_neg hbracket, if_neg hbrace, if_neg hquote]
    exact hscalar.widen _

/-- After an element the array ends, or a comma and further elements follow. -/
theorem skips_elements_of (h : Reads (skipValue s) () rest)
    (hend : skipBlanks rest = ']' :: after ∨
      ∃ more, skipBlanks rest = ',' :: more ∧ Reads (skipElements more) () after) :
    Reads (skipElements s) () after := by
  obtain ⟨hlt, hvalue⟩ := h
  unfold skipElements
  rw [hvalue]
  dsimp only
  obtain hclose | ⟨more, hcomma, hmore⟩ := hend
  · split <;> rename_i heq
    · exact absurd (hclose.symm.trans heq) (by simp)
    · obtain ⟨-, rfl⟩ := List.cons.inj (hclose.symm.trans heq)
      exact ⟨_, rfl⟩
    · exact absurd (hclose.symm.trans heq) (by simp)
    · exact absurd hclose (by simp_all)
  · split <;> rename_i heq
    · exact absurd (hcomma.symm.trans heq) (by simp)
    · exact absurd (hcomma.symm.trans heq) (by simp)
    · obtain ⟨-, rfl⟩ := List.cons.inj (hcomma.symm.trans heq)
      exact hmore.widen _
    · exact absurd hcomma (by simp_all)

/-- After a member the object ends, or a comma and further members follow. -/
theorem skips_members_of {key mark : List Char} (hopen : skipBlanks s = '"' :: key)
    (hkey : Reads (skipChars key) () mark) (hcolon : Reads (colon mark) () more)
    (hvalue : Reads (skipValue more) () rest)
    (hend : skipBlanks rest = '\x7d' :: after ∨
      ∃ more, skipBlanks rest = ',' :: more ∧ Reads (skipMembers more) () after) :
    Reads (skipMembers s) () after := by
  obtain ⟨hlt, hkey⟩ := hkey
  obtain ⟨hlt', hcolon⟩ := hcolon
  obtain ⟨hlt'', hvalue⟩ := hvalue
  unfold skipMembers
  split <;> rename_i heq
  · exact absurd (hopen.symm.trans heq) (by simp)
  · obtain ⟨-, rfl⟩ := List.cons.inj (hopen.symm.trans heq)
    rw [hkey]
    dsimp only
    rw [hcolon]
    dsimp only
    rw [hvalue]
    dsimp only
    obtain hclose | ⟨more, hcomma, hmore⟩ := hend
    · split <;> rename_i heq
      · exact absurd (hclose.symm.trans heq) (by simp)
      · obtain ⟨-, rfl⟩ := List.cons.inj (hclose.symm.trans heq)
        exact ⟨_, rfl⟩
      · exact absurd (hclose.symm.trans heq) (by simp)
      · exact absurd hclose (by simp_all)
    · split <;> rename_i heq
      · exact absurd (hcomma.symm.trans heq) (by simp)
      · exact absurd (hcomma.symm.trans heq) (by simp)
      · obtain ⟨-, rfl⟩ := List.cons.inj (hcomma.symm.trans heq)
        exact hmore.widen _
      · exact absurd hcomma (by simp_all)
  · exact absurd hopen (by simp_all)

end

/-! ### Values -/

theorem reads_colon {between : List Char} (h : Blanks between) (rest : List Char) :
    Reads (colon (between ++ ':' :: rest)) () rest := by
  have hskip : skipBlanks (between ++ ':' :: rest) = ':' :: rest := skipBlanks_append h (by decide)
  unfold colon
  split <;> rename_i heq
  · exact absurd (hskip.symm.trans heq) (by simp)
  · obtain ⟨-, rfl⟩ := List.cons.inj (hskip.symm.trans heq)
    exact ⟨_, rfl⟩
  · exact absurd hskip (by simp_all)

/-- What may follow a value between brackets, after blanks. -/
theorem stops_append {blanks rest : List Char} {c : Char} (h : Blanks blanks)
    (hc : c ∈ [',', ']', '\x7d']) : Stops (blanks ++ c :: rest) := by
  have hall : ∀ d ∈ [' ', '\t', '\n', '\r'] ++ [',', ']', '\x7d'],
      d.isDigit = false ∧ d ≠ '.' ∧ d ≠ 'e' ∧ d ≠ 'E' := by
    simp [Char.isDigit]
  intro d hd
  refine hall d ?_
  cases blanks with
  | nil =>
    obtain rfl : c = d := Option.some.inj hd
    exact List.mem_append_right _ hc
  | cons b bs =>
    obtain rfl : b = d := Option.some.inj hd
    exact List.mem_append_left _ (h b List.mem_cons_self)

theorem word_append (ws rest : List Char) : word ws (ws ++ rest) = .ok rest := by
  induction ws with
  | nil => rfl
  | cons w ws ih => rw [List.cons_append, word, if_pos rfl, ih]

/-- A value that is passed over, after any blanks, up to where it stops. -/
def Skipped (cs : List Char) : Prop :=
  ∀ ⦃blanks rest : List Char⦄, Blanks blanks → Stops rest →
    Reads (skipValue (blanks ++ (cs ++ rest))) () rest

theorem skipped_of_scalar {c : Char} {cs : List Char} (hblank : isBlank c = false)
    (hc : c ∉ ['[', '\x7b', '"'])
    (h : ∀ rest, Stops rest → Reads (skipScalar (c :: (cs ++ rest))) () rest) :
    Skipped (c :: cs) :=
  fun _ rest hblanks hrest => skips_scalar (skipBlanks_append hblanks hblank) hc (h rest hrest)

theorem skipped_word {w : String} (h : w ∈ ["null", "true", "false"]) : Skipped w.toList := by
  have hword : ∀ (c : Char) (cs rest : List Char),
      Reads (skipWord cs (c :: (cs ++ rest))) () rest := by
    intro c cs rest
    unfold skipWord
    dsimp only
    split <;> rename_i heq
    · rw [word_append] at heq
      cases heq
    · rw [word_append, Except.ok.injEq] at heq
      subst heq
      exact ⟨_, rfl⟩
  simp only [List.mem_cons, List.not_mem_nil, or_false] at h
  rcases h with rfl | rfl | rfl
  · show Skipped ['n', 'u', 'l', 'l']
    exact skipped_of_scalar (by decide) (by decide) fun _ _ => hword 'n' ['u', 'l', 'l'] _
  · show Skipped ['t', 'r', 'u', 'e']
    exact skipped_of_scalar (by decide) (by decide) fun _ _ => hword 't' ['r', 'u', 'e'] _
  · show Skipped ['f', 'a', 'l', 's', 'e']
    exact skipped_of_scalar (by decide) (by decide) fun _ _ => hword 'f' ['a', 'l', 's', 'e'] _

/-- A number begins with its sign or with a digit. -/
theorem NumberText.head {cs : List Char} (h : NumberText cs) :
    ∃ c more, cs = c :: more ∧ (c = '-' ∨ c.isDigit = true) := by
  obtain ⟨sign, whole, fraction, exponent, hsign, hw, -, -, rfl⟩ := h
  simp only [List.mem_cons, List.not_mem_nil, or_false] at hsign
  rcases hsign with rfl | rfl
  · obtain ⟨hne, hdigits⟩ := hw.isDigits
    cases whole with
    | nil => exact absurd rfl hne
    | cons c whole => exact ⟨c, _, rfl, .inr (hdigits c List.mem_cons_self)⟩
  · exact ⟨'-', _, rfl, .inl rfl⟩

theorem ne_of_head {c d : Char} (hc : c = '-' ∨ c.isDigit = true) (hdigit : d.isDigit = false)
    (hminus : d ≠ '-') : c ≠ d := by
  rintro rfl
  simp_all

theorem isBlank_of_head {c : Char} (hc : c = '-' ∨ c.isDigit = true) : isBlank c = false := by
  rw [← Bool.not_eq_true]
  intro hblank
  simp only [isBlank, Bool.or_eq_true, beq_iff_eq] at hblank
  rcases hblank with ((rfl | rfl) | rfl) | rfl <;> exact absurd hc (by decide)

theorem skipped_number {cs : List Char} (h : NumberText cs) : Skipped cs := by
  obtain ⟨c, more, rfl, hc⟩ := h.head
  have hopen : c ∉ ['[', '\x7b', '"'] := by
    simp only [List.mem_cons, List.not_mem_nil, or_false, not_or]
    exact ⟨ne_of_head hc rfl (by decide), ne_of_head hc rfl (by decide),
      ne_of_head hc rfl (by decide)⟩
  refine skipped_of_scalar (isBlank_of_head hc) hopen fun rest hrest => ?_
  rw [skipScalar, if_pos hc]
  · exact skips_number h hrest
  · exact ne_of_head hc rfl (by decide)
  · exact ne_of_head hc rfl (by decide)
  · exact ne_of_head hc rfl (by decide)

theorem StringText.head {cs : List Char} (h : StringText cs) : ∃ more, cs = '"' :: more := by
  obtain ⟨parts, -, rfl⟩ := h
  exact ⟨_, rfl⟩

theorem skipped_string {cs : List Char} (h : StringText cs) : Skipped cs := by
  obtain ⟨more, rfl⟩ := h.head
  exact fun _ rest hblanks _ =>
    skips_quoted (skipBlanks_append hblanks (by decide)) (skips_string h rest)

/-! ### Arrays and objects -/

/-- Elements that are passed over, with the bracket that closes their array. -/
def SkippedElements (parts : List (List Char)) : Prop :=
  ∀ ⦃part more⦄, parts = part :: more → ∀ rest,
    Reads (skipElements (part ++ (more.flatMap (',' :: ·) ++ ']' :: rest))) () rest

/-- Members that are passed over, with the brace that closes their object. -/
def SkippedMembers (parts : List (List Char)) : Prop :=
  ∀ ⦃part more⦄, parts = part :: more → ∀ rest,
    Reads (skipMembers (part ++ (more.flatMap (',' :: ·) ++ '\x7d' :: rest))) () rest

/-- What follows a part between brackets: the closing one, or a comma and another part. -/
theorem tail_cases (parts : List (List Char)) (closing : Char) (rest : List Char) :
    (parts = [] ∧ parts.flatMap (',' :: ·) ++ closing :: rest = closing :: rest) ∨
      ∃ part more, parts = part :: more ∧
        parts.flatMap (',' :: ·) ++ closing :: rest =
          ',' :: (part ++ (more.flatMap (',' :: ·) ++ closing :: rest)) := by
  cases parts with
  | nil => exact .inl ⟨rfl, rfl⟩
  | cons part more => exact .inr ⟨part, more, rfl, by simp⟩

theorem stops_tail {blanks : List Char} (h : Blanks blanks) (closing : Char)
    (hc : closing ∈ [',', ']', '\x7d']) (parts : List (List Char)) (rest : List Char) :
    Stops (blanks ++ (parts.flatMap (',' :: ·) ++ closing :: rest)) := by
  obtain ⟨-, htail⟩ | ⟨part, more, -, htail⟩ := tail_cases parts closing rest
  · rw [htail]
    exact stops_append h hc
  · rw [htail]
    exact stops_append h (by decide)

theorem skippedElements_cons {before value after : List Char} {parts : List (List Char)}
    (hbefore : Blanks before) (hvalue : Skipped value) (hafter : Blanks after)
    (hparts : SkippedElements parts) : SkippedElements ((before ++ value ++ after) :: parts) := by
  intro part more heq rest
  obtain ⟨rfl, rfl⟩ := List.cons.inj heq
  have hstops := stops_tail hafter ']' (by decide) parts rest
  have hread := hvalue hbefore hstops
  have happend : before ++ value ++ after ++ (parts.flatMap (',' :: ·) ++ ']' :: rest) =
      before ++ (value ++ (after ++ (parts.flatMap (',' :: ·) ++ ']' :: rest))) := by
    simp only [List.append_assoc]
  rw [happend]
  refine skips_elements_of hread ?_
  obtain ⟨-, htail⟩ | ⟨part, more, hmore, htail⟩ := tail_cases parts ']' rest
  · rw [htail]
    exact .inl (skipBlanks_append hafter (by decide))
  · rw [htail]
    exact .inr ⟨_, skipBlanks_append hafter (by decide), hparts hmore rest⟩

theorem skippedMembers_cons {before key between gap value after : List Char}
    {parts : List (List Char)} (hbefore : Blanks before) (hkey : StringText key)
    (hbetween : Blanks between) (hgap : Blanks gap) (hvalue : Skipped value)
    (hafter : Blanks after) (hparts : SkippedMembers parts) :
    SkippedMembers ((before ++ key ++ between ++ ':' :: (gap ++ value ++ after)) :: parts) := by
  intro part more heq rest
  obtain ⟨rfl, rfl⟩ := List.cons.inj heq
  obtain ⟨key, rfl⟩ := hkey.head
  have hstops := stops_tail hafter '\x7d' (by decide) parts rest
  have happend : before ++ '"' :: key ++ between ++ ':' :: (gap ++ value ++ after) ++
        (parts.flatMap (',' :: ·) ++ '\x7d' :: rest) =
      before ++ '"' :: (key ++ (between ++ ':' :: (gap ++ (value ++ (after ++
        (parts.flatMap (',' :: ·) ++ '\x7d' :: rest)))))) := by
    simp
  rw [happend]
  refine skips_members_of (skipBlanks_append hbefore (by decide)) (skips_string hkey _)
    (reads_colon hbetween _) (hvalue hgap hstops) ?_
  obtain ⟨-, htail⟩ | ⟨part, more, hmore, htail⟩ := tail_cases parts '\x7d' rest
  · rw [htail]
    exact .inl (skipBlanks_append hafter (by decide))
  · rw [htail]
    exact .inr ⟨_, skipBlanks_append hafter (by decide), hparts hmore rest⟩

/-- After blanks the text begins with something that closes no brackets. -/
def Opens (cs : List Char) : Prop :=
  ∃ blanks c more, Blanks blanks ∧ isBlank c = false ∧ c ≠ ']' ∧ c ≠ '\x7d' ∧
    cs = blanks ++ c :: more

theorem Opens.skipBlanks_ne {cs : List Char} (h : Opens cs) (rest after : List Char) :
    skipBlanks (cs ++ rest) ≠ ']' :: after ∧ skipBlanks (cs ++ rest) ≠ '\x7d' :: after := by
  obtain ⟨blanks, c, more, hblanks, hc, hbracket, hbrace, rfl⟩ := h
  rw [List.append_assoc, List.cons_append, skipBlanks_append hblanks hc]
  exact ⟨fun heq => hbracket (List.cons.inj heq).1, fun heq => hbrace (List.cons.inj heq).1⟩

theorem Bracketed.head {opening closing : Char} {parts : List (List Char)} {cs : List Char}
    (h : Bracketed opening closing parts cs) : ∃ more, cs = opening :: more := by
  cases h with
  | none => exact ⟨_, rfl⟩
  | some => exact ⟨_, rfl⟩

theorem ValueText.opens {before cs : List Char} (h : ValueText cs) (hbefore : Blanks before)
    (after : List Char) : Opens (before ++ cs ++ after) := by
  have hopens : ∃ c more, cs = c :: more ∧ isBlank c = false ∧ c ≠ ']' ∧ c ≠ '\x7d' := by
    cases h with
    | word h =>
      simp only [List.mem_cons, List.not_mem_nil, or_false] at h
      rcases h with rfl | rfl | rfl
      · exact ⟨'n', ['u', 'l', 'l'], rfl, by decide⟩
      · exact ⟨'t', ['r', 'u', 'e'], rfl, by decide⟩
      · exact ⟨'f', ['a', 'l', 's', 'e'], rfl, by decide⟩
    | number h =>
      obtain ⟨c, more, rfl, hc⟩ := h.head
      exact ⟨c, more, rfl, isBlank_of_head hc, ne_of_head hc rfl (by decide),
        ne_of_head hc rfl (by decide)⟩
    | string h =>
      obtain ⟨more, rfl⟩ := h.head
      exact ⟨'"', more, rfl, by decide⟩
    | array _ h =>
      obtain ⟨more, rfl⟩ := h.head
      exact ⟨'[', more, rfl, by decide⟩
    | object _ h =>
      obtain ⟨more, rfl⟩ := h.head
      exact ⟨'\x7b', more, rfl, by decide⟩
  obtain ⟨c, more, rfl, hblank, hbracket, hbrace⟩ := hopens
  exact ⟨before, c, more ++ after, hbefore, hblank, hbracket, hbrace, by simp⟩

theorem skipped_array {parts : List (List Char)} {cs : List Char}
    (hopens : ∀ part ∈ parts, Opens part) (hparts : SkippedElements parts)
    (h : Bracketed '[' ']' parts cs) : Skipped cs := by
  intro before rest hbefore _
  cases h with
  | none hblanks =>
    rw [List.cons_append, List.append_assoc]
    exact skips_emptyArray (skipBlanks_append hbefore (by decide))
      (skipBlanks_append hblanks (by decide))
  | @some part parts =>
    have happend : before ++ ('[' :: (part ++ parts.flatMap (',' :: ·) ++ [']']) ++ rest) =
        before ++ '[' :: (part ++ (parts.flatMap (',' :: ·) ++ ']' :: rest)) := by
      simp
    rw [happend]
    exact skips_array (skipBlanks_append hbefore (by decide))
      (fun after => ((hopens part List.mem_cons_self).skipBlanks_ne _ after).1) (hparts rfl rest)

theorem skipped_object {parts : List (List Char)} {cs : List Char}
    (hopens : ∀ part ∈ parts, Opens part) (hparts : SkippedMembers parts)
    (h : Bracketed '\x7b' '\x7d' parts cs) : Skipped cs := by
  intro before rest hbefore _
  cases h with
  | none hblanks =>
    rw [List.cons_append, List.append_assoc]
    exact skips_emptyObject (skipBlanks_append hbefore (by decide))
      (skipBlanks_append hblanks (by decide))
  | @some part parts =>
    have happend : before ++ ('\x7b' :: (part ++ parts.flatMap (',' :: ·) ++ ['\x7d']) ++ rest) =
        before ++ '\x7b' :: (part ++ (parts.flatMap (',' :: ·) ++ '\x7d' :: rest)) := by
      simp
    rw [happend]
    exact skips_object (skipBlanks_append hbefore (by decide))
      (fun after => ((hopens part List.mem_cons_self).skipBlanks_ne _ after).2) (hparts rfl rest)

theorem opens_quote {before : List Char} (h : Blanks before) (more after : List Char) :
    Opens (before ++ '"' :: more ++ after) :=
  ⟨before, '"', more ++ after, h, by decide, by decide, by decide, by simp⟩

theorem ElementTexts.opens : ∀ {parts : List (List Char)}, ElementTexts parts →
    ∀ part ∈ parts, Opens part
  | _, .nil => fun _ hpart => absurd hpart List.not_mem_nil
  | _, .cons hbefore hvalue _ hparts =>
    List.forall_mem_cons.2 ⟨hvalue.opens hbefore _, hparts.opens⟩

theorem MemberTexts.opens : ∀ {parts : List (List Char)}, MemberTexts parts →
    ∀ part ∈ parts, Opens part
  | _, .nil => fun _ hpart => absurd hpart List.not_mem_nil
  | _, .cons hbefore hkey _ _ _ _ hparts => by
    refine List.forall_mem_cons.2 ⟨?_, hparts.opens⟩
    obtain ⟨key, rfl⟩ := hkey.head
    rw [List.append_assoc]
    exact opens_quote hbefore key _

mutual

/-- **Whatever the grammar has for a value is skipped**, up to where the value ends. -/
theorem skipped_value : ∀ {cs : List Char}, ValueText cs → Skipped cs
  | _, .word h => skipped_word h
  | _, .number h => skipped_number h
  | _, .string h => skipped_string h
  | _, .array hparts h => skipped_array hparts.opens (skipped_elements hparts) h
  | _, .object hparts h => skipped_object hparts.opens (skipped_members hparts) h

theorem skipped_elements : ∀ {parts : List (List Char)}, ElementTexts parts → SkippedElements parts
  | _, .nil => fun _ _ heq => nomatch heq
  | _, .cons hbefore hvalue hafter hparts =>
    skippedElements_cons hbefore (skipped_value hvalue) hafter (skipped_elements hparts)

theorem skipped_members : ∀ {parts : List (List Char)}, MemberTexts parts → SkippedMembers parts
  | _, .nil => fun _ _ heq => nomatch heq
  | _, .cons hbefore hkey hbetween hgap hvalue hafter hparts =>
    skippedMembers_cons hbefore hkey hbetween hgap (skipped_value hvalue) hafter
      (skipped_members hparts)

end

end LogForwarding.Json
