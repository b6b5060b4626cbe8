/-
# The one reading of a template

A reading of a template is a list of segments that says where its placeholders
are: written one after the other, the segments are the template; every key is a
key; and literal text is neither empty, nor cut in two, nor does it hold a
placeholder. Every template has exactly one reading, the one that scanning it
finds. So nothing is lost or read twice, a placeholder is seen wherever one is
written, and braces of any other kind are text.

What has to be excluded is that placeholders overlap. A placeholder that began
in literal text would have to end in it too, since the placeholder after it
begins with two braces (`Template.placeholder?_append`).

Key definitions: `Template.IsKey`, `Segment.IsPlaceholder`,
`Template.HoldsPlaceholder`, `Template.Canonical`, `Template.IsReading`.
Key theorems: `Template.isCanonical_iff`, `Template.write_scan`,
`Template.canonical_scan`, `Template.IsReading.eq_segments`,
`Template.isReading_iff_eq_segments`.
-/
import LogForwarding.Proofs.Canonical
import Mathlib.Data.List.Chain

namespace LogForwarding

namespace Template

/-- `c` is one of `A` to `Z` and `a` to `z`. -/
def IsLetter (c : Char) : Prop := 'A' ≤ c ∧ c ≤ 'Z' ∨ 'a' ≤ c ∧ c ≤ 'z'

/-- `c` is one of `0` to `9`. -/
def IsDigit (c : Char) : Prop := '0' ≤ c ∧ c ≤ '9'

/-- The text is a letter or underscore, and then letters, digits and underscores. -/
def IsKey (key : String) : Prop :=
  ∃ first rest, key.toList = first :: rest ∧ (IsLetter first ∨ first = '_') ∧
    ∀ c ∈ rest, IsLetter c ∨ IsDigit c ∨ c = '_'

end Template

/-- The segment is literal text. -/
def Segment.IsText (segment : Segment) : Prop := ∃ literal, segment = .text literal

/-- The segment is a placeholder with a key. -/
def Segment.IsPlaceholder (segment : Segment) : Prop :=
  ∃ key, Template.IsKey key ∧ (segment = .field key ∨ segment = .embed key)

namespace Template

/-- Somewhere in the text a placeholder is written. -/
def HoldsPlaceholder (literal : String) : Prop :=
  ∃ segment : Segment, segment.IsPlaceholder ∧ segment.write.toList <:+: literal.toList

/-- The segments say what is text and what is a placeholder, in the one way that leaves no
choice. -/
structure Canonical (segments : List Segment) : Prop where
  /-- Each is text, or a placeholder with a key. -/
  keys : ∀ segment ∈ segments, segment.IsText ∨ segment.IsPlaceholder
  /-- No text is empty. -/
  text_ne : ∀ literal, .text literal ∈ segments → literal ≠ ""
  /-- No text holds a placeholder. -/
  literal : ∀ literal, .text literal ∈ segments → ¬ HoldsPlaceholder literal
  /-- No text follows on another. -/
  apart : segments.IsChain fun a b => ¬ (a.IsText ∧ b.IsText)

/-- The segments are a reading of the template. -/
structure IsReading (segments : List Segment) (template : String) : Prop where
  /-- One after the other they are the template. -/
  write_eq : write segments = template
  /-- What could be told apart is. -/
  canonical : Canonical segments

/-! ### Placeholders -/

theorem isAlpha_iff {c : Char} : c.isAlpha = true ↔ IsLetter c := by
  show (decide ('A'.val ≤ c.val ∧ c.val ≤ 'Z'.val) ||
    (decide ('a'.val ≤ c.val) && decide (c.val ≤ 'z'.val))) = true ↔ _
  simp only [Bool.or_eq_true, Bool.and_eq_true, decide_eq_true_eq]
  exact Iff.rfl

theorem isDigit_iff {c : Char} : c.isDigit = true ↔ IsDigit c := by
  show (decide ('0'.val ≤ c.val) && decide (c.val ≤ '9'.val)) = true ↔ _
  simp only [Bool.and_eq_true, decide_eq_true_eq]
  exact Iff.rfl

theorem isKeyStart_iff {c : Char} : isKeyStart c ↔ IsLetter c ∨ c = '_' := by
  rw [isKeyStart, Bool.or_eq_true, isAlpha_iff, beq_iff_eq]

theorem isKeyChar_iff {c : Char} : isKeyChar c ↔ IsLetter c ∨ IsDigit c ∨ c = '_' := by
  show ((c.isAlpha || c.isDigit) || c == '_') = true ↔ _
  rw [Bool.or_eq_true, Bool.or_eq_true, isAlpha_iff, isDigit_iff, beq_iff_eq, or_assoc]

theorem isKey_iff {key : String} : isKey key ↔ IsKey key := by
  unfold isKey IsKey
  cases key.toList with
  | nil => simp
  | cons first rest => simp [← isKeyStart_iff, ← isKeyChar_iff]

theorem isPlaceholder_iff {segment : Segment} : isPlaceholder segment ↔ segment.IsPlaceholder := by
  cases segment <;> simp [isPlaceholder, Segment.IsPlaceholder, isKey_iff]

/-- A text begins with no placeholder if and only if none is written in front. -/
theorem placeholder?_eq_none_iff {cs : List Char} :
    placeholder? cs = none ↔
      ∀ segment : Segment, segment.IsPlaceholder → ¬ segment.write.toList <+: cs := by
  constructor
  · rintro hnone segment hp ⟨after, rfl⟩
    rw [placeholder?_eq_some_iff.2 ⟨isPlaceholder_iff.2 hp, rfl⟩] at hnone
    cases hnone
  · intro h
    rw [Option.eq_none_iff_forall_ne_some]
    rintro ⟨segment, after⟩ hsome
    obtain ⟨hp, rfl⟩ := placeholder?_eq_some_iff.1 hsome
    exact h segment (isPlaceholder_iff.1 hp) (List.prefix_append _ _)

/-- What no placeholder begins with, no placeholder begins a part of. -/
theorem placeholder?_eq_none_of_prefix {cs ds : List Char} (h : placeholder? ds = none)
    (hp : cs <+: ds) : placeholder? cs = none :=
  placeholder?_eq_none_iff.2 fun segment hs hw =>
    placeholder?_eq_none_iff.1 h segment hs (hw.trans hp)

theorem isLiteral_iff {cs : List Char} :
    isLiteral cs ↔
      ∀ segment : Segment, segment.IsPlaceholder → ¬ segment.write.toList <:+: cs := by
  induction cs with
  | nil =>
    refine iff_of_true rfl fun segment hp hw => ?_
    obtain ⟨_, hbody, _⟩ := exists_write_of_isPlaceholder (isPlaceholder_iff.2 hp)
    rw [List.infix_nil, hbody] at hw
    cases hw
  | cons c cs ih =>
    rw [isLiteral, Bool.and_eq_true, Option.isNone_iff_eq_none, ih, placeholder?_eq_none_iff]
    simp only [List.infix_cons_iff, not_or]
    exact ⟨fun ⟨hhere, hlater⟩ segment hp => ⟨hhere segment hp, hlater segment hp⟩,
      fun h => ⟨fun segment hp => (h segment hp).1, fun segment hp => (h segment hp).2⟩⟩

theorem isLiteral_toList_iff {literal : String} :
    isLiteral literal.toList ↔ ¬ HoldsPlaceholder literal := by
  simp [isLiteral_iff, HoldsPlaceholder]

/-! ### Canonical segments -/

theorem canonical_nil : Canonical [] := ⟨by simp, by simp, by simp, .nil⟩

theorem not_isText_of_isPlaceholder {segment : Segment} (h : segment.IsPlaceholder) :
    ¬ segment.IsText := by
  rintro ⟨literal, rfl⟩
  obtain ⟨_, _, h | h⟩ := h <;> cases h

theorem startsWithText_eq_false_iff {segments : List Segment} :
    startsWithText segments = false ↔ ∀ segment ∈ segments.head?, ¬ segment.IsText := by
  cases segments with
  | nil => simp [startsWithText]
  | cons segment rest => cases segment <;> simp [startsWithText, Segment.IsText]

theorem exists_of_startsWithText {segments : List Segment} (h : startsWithText segments = true) :
    ∃ literal rest, segments = .text literal :: rest := by
  cases segments with
  | nil => cases h
  | cons segment rest =>
    cases segment with
    | text literal => exact ⟨literal, rest, rfl⟩
    | field key => cases h
    | embed key => cases h

theorem canonical_cons_text_iff {literal : String} {rest : List Segment} :
    Canonical (.text literal :: rest) ↔
      literal ≠ "" ∧ ¬ HoldsPlaceholder literal ∧ startsWithText rest = false ∧ Canonical rest := by
  rw [startsWithText_eq_false_iff]
  constructor
  · rintro ⟨hkeys, hne, hliteral, hapart⟩
    obtain ⟨hnext, hrest⟩ := List.isChain_cons.1 hapart
    refine ⟨hne _ (by simp), hliteral _ (by simp), fun b hb ht => hnext b hb ⟨⟨_, rfl⟩, ht⟩, ?_⟩
    exact ⟨fun s hs => hkeys s (.tail _ hs), fun l hl => hne l (.tail _ hl),
      fun l hl => hliteral l (.tail _ hl), hrest⟩
  · rintro ⟨hne, hliteral, hnext, hrest⟩
    refine ⟨List.forall_mem_cons.2 ⟨.inl ⟨_, rfl⟩, hrest.keys⟩, fun l hl => ?_, fun l hl => ?_,
      List.isChain_cons.2 ⟨fun b hb hab => hnext b hb hab.2, hrest.apart⟩⟩
    · rcases List.mem_cons.1 hl with hl | hl
      · exact Segment.text.inj hl ▸ hne
      · exact hrest.text_ne l hl
    · rcases List.mem_cons.1 hl with hl | hl
      · exact Segment.text.inj hl ▸ hliteral
      · exact hrest.literal l hl

/-- A placeholder stands beside anything. -/
theorem Canonical.append_placeholder {as bs : List Segment} {segment : Segment}
    (ha : Canonical as) (hp : segment.IsPlaceholder) (hb : Canonical bs) :
    Canonical (as ++ segment :: bs) := by
  have hnot := not_isText_of_isPlaceholder hp
  have hmem : ∀ literal, .text literal ∈ as ++ segment :: bs →
      .text literal ∈ as ∨ .text literal ∈ bs := by
    intro literal h
    rcases List.mem_append.1 h with h | h
    · exact .inl h
    · exact .inr ((List.mem_cons.1 h).resolve_left fun heq => hnot ⟨literal, heq.symm⟩)
  refine ⟨fun s hs => ?_, fun l hl => (hmem l hl).elim (ha.text_ne l) (hb.text_ne l),
    fun l hl => (hmem l hl).elim (ha.literal l) (hb.literal l), ?_⟩
  · rcases List.mem_append.1 hs with hs | hs
    · exact ha.keys s hs
    · rcases List.mem_cons.1 hs with rfl | hs
      · exact .inr hp
      · exact hb.keys s hs
  · refine List.isChain_append.2 ⟨ha.apart, List.isChain_cons.2 ⟨?_, hb.apart⟩, ?_⟩
    · exact fun b _ hsb => hnot hsb.1
    · rintro a _ b ⟨⟩ hab
      exact hnot hab.2

theorem canonical_cons_iff {segment : Segment} {rest : List Segment} (h : ¬ segment.IsText) :
    Canonical (segment :: rest) ↔ segment.IsPlaceholder ∧ Canonical rest := by
  constructor
  · rintro ⟨hkeys, hne, hliteral, hapart⟩
    exact ⟨(hkeys segment (by simp)).resolve_left h, fun s hs => hkeys s (.tail _ hs),
      fun l hl => hne l (.tail _ hl), fun l hl => hliteral l (.tail _ hl),
      (List.isChain_cons.1 hapart).2⟩
  · rintro ⟨hp, hrest⟩
    exact canonical_nil.append_placeholder hp hrest

/-- Segments are tested for being canonical. -/
theorem isCanonical_iff {segments : List Segment} : isCanonical segments ↔ Canonical segments := by
  induction segments with
  | nil => exact iff_of_true rfl canonical_nil
  | cons segment rest ih =>
    by_cases ht : segment.IsText
    · obtain ⟨literal, rfl⟩ := ht
      rw [canonical_cons_text_iff, isCanonical, ← ih, ← isLiteral_toList_iff]
      simp [and_assoc]
    · rw [canonical_cons_iff ht, isCanonical, Bool.and_eq_true, isPlaceholder_iff, ih]
      exact fun literal heq => ht ⟨literal, heq⟩

/-! ### Scanning -/

/-- A character that no placeholder begins with goes to the text after it. -/
theorem canonical_consText {c : Char} {segments : List Segment}
    (h : placeholder? (c :: (write segments).toList) = none) (hs : Canonical segments) :
    Canonical (consText c segments) := by
  have hliteral : ∀ cs, cs <+: (write segments).toList → isLiteral cs →
      ¬ HoldsPlaceholder (String.ofList (c :: cs)) := by
    intro cs hprefix hcs
    have hnone := placeholder?_eq_none_of_prefix h (List.cons_prefix_cons.2 ⟨rfl, hprefix⟩)
    rw [← isLiteral_toList_iff, String.toList_ofList, isLiteral, hnone, hcs]
    rfl
  have hne : ∀ cs, String.ofList (c :: cs) ≠ "" := by
    intro cs heq
    have hlist := congrArg String.toList heq
    simp at hlist
  cases ht : startsWithText segments with
  | false =>
    rw [consText_of_not_startsWithText ht, canonical_cons_text_iff]
    exact ⟨hne [], hliteral [] (List.nil_prefix) rfl, ht, hs⟩
  | true =>
    obtain ⟨literal, rest, rfl⟩ := exists_of_startsWithText ht
    obtain ⟨_, hold, hnext, hrest⟩ := canonical_cons_text_iff.1 hs
    have hjoin : String.singleton c ++ literal = String.ofList (c :: literal.toList) := by
      apply String.toList_injective
      simp
    have hprefix : literal.toList <+: (write (.text literal :: rest)).toList := by
      rw [write, String.toList_append]
      exact List.prefix_append _ _
    rw [consText, hjoin, canonical_cons_text_iff]
    exact ⟨hne _, hliteral _ hprefix (isLiteral_toList_iff.2 hold), hnext, hrest⟩

theorem write_consText (c : Char) (segments : List Segment) :
    write (consText c segments) = String.singleton c ++ write segments := by
  cases ht : startsWithText segments with
  | false =>
    rw [consText_of_not_startsWithText ht, write]
    rfl
  | true =>
    obtain ⟨literal, rest, rfl⟩ := exists_of_startsWithText ht
    simp [consText, write, Segment.write, String.append_assoc]

/-- Scanning loses nothing. -/
theorem write_scan (cs : List Char) : write (scan cs) = String.ofList cs := by
  apply String.toList_injective
  fun_induction scan cs with
  | case1 cs segment after h ih =>
    obtain ⟨_, rfl⟩ := placeholder?_eq_some_iff.1 h
    rw [write, String.toList_append, ih]
    simp
  | case2 => rfl
  | case3 c rest h ih =>
    rw [write_consText, String.toList_append, ih]
    simp

theorem canonical_scan (cs : List Char) : Canonical (scan cs) := by
  fun_induction scan cs with
  | case1 cs segment after h ih =>
    obtain ⟨hp, rfl⟩ := placeholder?_eq_some_iff.1 h
    exact canonical_nil.append_placeholder (isPlaceholder_iff.1 hp) ih
  | case2 => exact canonical_nil
  | case3 c rest h ih =>
    refine canonical_consText ?_ ih
    rwa [write_scan, String.toList_ofList]

/-! ### The reading -/

/-- The segments of a template are a reading of it. -/
theorem isReading_segments (template : String) : IsReading (segments template) template := by
  refine ⟨?_, canonical_scan _⟩
  rw [segments, write_scan, String.ofList_toList]

/-- There is no other reading. -/
theorem IsReading.eq_segments {found : List Segment} {template : String}
    (h : IsReading found template) : found = segments template := by
  rw [← h.write_eq, segments_write (isCanonical_iff.2 h.canonical)]

/-- **A template has one reading**, the segments that are found in it. So a placeholder is found
wherever it is written, with what stands before and after it read as if it stood alone; and a
text without placeholders is one piece of text. -/
theorem isReading_iff_eq_segments (template : String) :
    (∀ found, IsReading found template ↔ found = segments template) ∧
    (∀ before segment after, segment.IsPlaceholder →
      template = before ++ segment.write ++ after →
        segments template = segments before ++ segment :: segments after) ∧
    (template ≠ "" → ¬ HoldsPlaceholder template → segments template = [.text template]) := by
  refine ⟨fun found => ⟨IsReading.eq_segments, ?_⟩, ?_, ?_⟩
  · rintro rfl
    exact isReading_segments template
  · rintro before segment after hp rfl
    have hbefore := isReading_segments before
    have hafter := isReading_segments after
    refine (IsReading.eq_segments ⟨?_, ?_⟩).symm
    · rw [write_append, write, hbefore.write_eq, hafter.write_eq, String.append_assoc]
    · exact hbefore.canonical.append_placeholder hp hafter.canonical
  · intro hne hliteral
    refine (IsReading.eq_segments ⟨?_, ?_⟩).symm
    · rw [write, write, Segment.write, String.append_empty]
    · exact canonical_cons_text_iff.2 ⟨hne, hliteral, rfl, canonical_nil⟩

/-- Braces that do not fit are text, even directly before a placeholder. -/
example :
    segments "\x7b\x7b\x7b.x\x7d\x7d\x7d \x7b\x7b.y\x7d" =
      [.text "\x7b", .field "x", .text "\x7d \x7b\x7b.y\x7d"] :=
  (IsReading.eq_segments ⟨by decide, isCanonical_iff.1 (by decide)⟩).symm

end Template

end LogForwarding
