/-
# What is read as a shape spells it

The other direction of the lemmas on shapes: a reader is exact for the texts of
a grammar if it reads no value but one that the text before the rest is for
(`Exact`). What holds other values is exact where the readers of these are, and
the members of an object are found in the order in which they were read.

Key theorems: `Json.exact_text`, `Json.exact_optional`, `Json.exact_sequence`,
`Json.exact_choice`, `Json.exists_members`.
-/
import LogForwarding.Proofs.Json.Exact.Skipping
import LogForwarding.Proofs.Json.Shapes

namespace LogForwarding.Json

variable {α δ : Type} {s rest : List Char}

/-! ### Strings, `null`, and values that may be absent -/

/-- Strings are read from nothing but their texts. -/
theorem exact_text (expected : String) : Exact (text expected) SpellsString := by
  intro s value rest h
  obtain ⟨blanks, hblanks, heq⟩ := exists_blanks s
  unfold text at h
  split at h
  · rename_i quoted hskip
    obtain ⟨cs, hcs, hquoted⟩ := exists_spells_string h.of_widen
    rw [hskip, hquoted] at heq
    exact ⟨blanks, cs, hblanks, hcs, heq⟩
  · exact absurd h not_reads_error

theorem exists_null {expected : String} (h : Reads (null expected s) () rest) :
    ∃ blanks, Blanks blanks ∧ s = blanks ++ ("null".toList ++ rest) := by
  obtain ⟨blanks, hblanks, heq⟩ := exists_blanks s
  unfold null at h
  split at h
  · rename_i more hskip
    split at h
    · exact absurd h not_reads_error
    · rename_i after hword
      obtain ⟨-, rfl⟩ := reads_ok_iff.1 h
      rw [hskip, eq_append_of_word hword] at heq
      exact ⟨blanks, hblanks, heq⟩
  · exact absurd h not_reads_error

/-- Values that may be absent are read from nothing but their texts, if values are. -/
theorem exact_optional {read : Reader α} {spells : α → List Char → Prop} (h : Exact read spells) :
    Exact (optional read) (SpellsOption spells) := by
  intro s value rest hread
  unfold optional at hread
  split at hread
  · obtain ⟨_, hnull, rfl⟩ := hread.of_map
    obtain ⟨blanks, hblanks, heq⟩ := exists_null hnull
    exact ⟨blanks, _, hblanks, rfl, heq⟩
  · obtain ⟨value, hvalue, rfl⟩ := hread.of_map
    exact h hvalue

/-! ### Sequences -/

theorem exists_moreElements {read : Reader α} {spells : α → List Char → Prop}
    (h : Exact read spells) {values : List α} (hread : Reads (moreElements read s) values rest) :
    ∃ after parts, Blanks after ∧ List.Forall₂ (fun value => Padded (spells value)) values parts ∧
      s = after ++ (parts.flatMap (',' :: ·) ++ ']' :: rest) := by
  fun_induction moreElements read s generalizing values with
  | case1 | case3 | case4 | case6 => exact absurd hread not_reads_error
  | case2 s after hclose =>
    obtain ⟨rfl, rfl⟩ := reads_ok_iff.1 hread
    obtain ⟨blanks, hblanks, heq⟩ := exists_blanks s
    rw [hclose] at heq
    exact ⟨blanks, [], hblanks, .nil, heq⟩
  | case5 s more hcomma _ element helement _ others hothers ih =>
    obtain ⟨rfl, hrest⟩ := reads_ok_iff.1 hread
    obtain ⟨blanks, hblanks, heq⟩ := exists_blanks s
    obtain ⟨before, core, hbefore, hcore, hmore⟩ := h (.of_eq helement rfl)
    obtain ⟨after, parts, hafter, hparts, htail⟩ := ih (.of_eq hothers hrest)
    refine ⟨blanks, (before ++ core ++ after) :: parts, hblanks,
      .cons ⟨before, core, after, hbefore, hcore, hafter, rfl⟩ hparts, ?_⟩
    rw [hcomma, hmore, htail] at heq
    rw [heq]
    simp

theorem sequence_cases {read : Reader α} {values : List α}
    (h : Reads (sequence read s) values rest) :
    ∃ inner, skipBlanks s = '[' :: inner ∧
      (values = [] ∧ skipBlanks inner = ']' :: rest ∨
        ∃ value more tail, values = value :: more ∧ Reads (read inner) value tail ∧
          Reads (moreElements read tail) more rest) := by
  unfold sequence at h
  split at h
  · rename_i inner hskip
    refine ⟨inner, hskip, ?_⟩
    dsimp only at h
    split at h
    · rename_i hclose
      obtain ⟨rfl, rfl⟩ := reads_ok_iff.1 h
      exact .inl ⟨rfl, hclose⟩
    · split at h
      · exact absurd h not_reads_error
      · rename_i first hfirst
        cases hmore : moreElements read first.rest with
        | error fault =>
          rw [hmore] at h
          exact absurd h not_reads_error
        | ok more =>
          rw [hmore] at h
          obtain ⟨rfl, hrest⟩ := reads_ok_iff.1 h
          exact .inr ⟨first.value, more.value, first.rest, rfl, .of_eq hfirst rfl,
            .of_eq hmore hrest⟩
  · exact absurd h not_reads_error

/-- Sequences are read from nothing but their texts, if their elements are. -/
theorem exact_sequence {read : Reader α} {spells : α → List Char → Prop} (h : Exact read spells) :
    Exact (sequence read) (SpellsArray spells) := by
  intro s values rest hread
  obtain ⟨inner, hskip, hinner⟩ := sequence_cases hread
  have hcore : ∃ cs, SpellsArray spells values cs ∧ '[' :: inner = cs ++ rest := by
    obtain ⟨rfl, hclose⟩ | ⟨value, more, tail, rfl, hvalue, hmore⟩ := hinner
    · obtain ⟨cs, hcs, heq⟩ := exists_bracketed_nil hclose
      exact ⟨cs, ⟨[], .nil, hcs⟩, heq⟩
    · obtain ⟨before, core, hbefore, hcore, rfl⟩ := h hvalue
      obtain ⟨after, parts, hafter, hparts, rfl⟩ := exists_moreElements h hmore
      refine ⟨_, ⟨(before ++ core ++ after) :: parts,
        .cons ⟨before, core, after, hbefore, hcore, hafter, rfl⟩ hparts, .some⟩, ?_⟩
      simp
  obtain ⟨blanks, hblanks, heq⟩ := exists_blanks s
  obtain ⟨cs, hcs, hbracket⟩ := hcore
  rw [hskip, hbracket] at heq
  exact ⟨blanks, cs, hblanks, hcs, heq⟩

/-! ### Objects -/

/-- What is read after a key is a colon and a text that takes the draft on. -/
def TakesMember (member : String → δ → Reader δ) (takes : String → List Char → δ → δ → Prop) :
    Prop :=
  ∀ ⦃key draft next s rest⦄, Reads (member key draft s) next rest →
    ∃ between gap text, Blanks between ∧ Blanks gap ∧ takes key text draft next ∧
      s = between ++ ':' :: (gap ++ (text ++ rest))

theorem moreMembers_cases {member : String → δ → Reader δ} {draft final : δ}
    (h : Reads (moreMembers member draft s) final rest) :
    ∃ quoted key mark next mid, skipBlanks s = '"' :: quoted ∧ Reads (string quoted) key mark ∧
      Reads (member key draft mark) next mid ∧
      (next = final ∧ skipBlanks mid = '\x7d' :: rest ∨
        ∃ more, skipBlanks mid = ',' :: more ∧
          Reads (moreMembers member next more) final rest) := by
  unfold moreMembers at h
  split at h
  · exact absurd h not_reads_error
  · rename_i quoted hskip
    dsimp only at h
    split at h
    · exact absurd h not_reads_error
    · rename_i key hkey
      split at h
      · exact absurd h not_reads_error
      · rename_i next hnext
        refine ⟨quoted, key.value, key.rest, next.value, next.rest, hskip, .of_eq hkey rfl,
          .of_eq hnext rfl, ?_⟩
        split at h
        · exact absurd h not_reads_error
        · rename_i hclose
          obtain ⟨rfl, rfl⟩ := reads_ok_iff.1 h
          exact .inl ⟨rfl, hclose⟩
        · rename_i more hcomma
          exact .inr ⟨more, hcomma, h.of_widen⟩
        · exact absurd h not_reads_error
  · exact absurd h not_reads_error

theorem exists_moreMembers {member : String → δ → Reader δ}
    {takes : String → List Char → δ → δ → Prop} (htakes : TakesMember member takes)
    {s rest : List Char} {draft final : δ} (h : Reads (moreMembers member draft s) final rest) :
    ∃ members part parts, List.Forall₂ SpellsMember members (part :: parts) ∧
      Steps takes draft members final ∧
      s = part ++ (parts.flatMap (',' :: ·) ++ '\x7d' :: rest) := by
  obtain ⟨quoted, key, mark, next, mid, hskip, hkey, hmember, hend⟩ := moreMembers_cases h
  have hmidLt : mid.length < s.length :=
    calc mid.length < mark.length := hmember.length_lt
      _ < quoted.length := hkey.length_lt
      _ < s.length := lt_of_skipBlanks hskip
  obtain ⟨before, hbefore, heq⟩ := exists_blanks s
  obtain ⟨core, hcore, hquoted⟩ := exists_spells_string hkey
  obtain ⟨between, gap, text, hbetween, hgap, htext, rfl⟩ := htakes hmember
  obtain ⟨after, hafter, hmid⟩ := exists_blanks mid
  have hpart : SpellsMember (key, text)
      ((before ++ core ++ between) ++ ':' :: (gap ++ text ++ after)) :=
    ⟨_, _, ⟨before, core, between, hbefore, hcore, hbetween, rfl⟩,
      ⟨gap, text, after, hgap, rfl, hafter, rfl⟩, rfl⟩
  obtain ⟨rfl, hclose⟩ | ⟨more, hcomma, hmore⟩ := hend
  · refine ⟨_, _, [], .cons hpart .nil, .cons htext .nil, ?_⟩
    rw [heq, hskip, hquoted, hmid, hclose]
    simp
  · have hmoreLt : more.length < mid.length := lt_of_skipBlanks hcomma
    obtain ⟨members, part, parts, hparts, hsteps, rfl⟩ := exists_moreMembers htakes hmore
    refine ⟨_, _, part :: parts, .cons hpart hparts, .cons htext hsteps, ?_⟩
    rw [heq, hskip, hquoted, hmid, hcomma]
    simp
termination_by s.length

/-- **The members of an object take the draft on** in the order in which they stand. -/
theorem exists_members {member : String → δ → Reader δ}
    {takes : String → List Char → δ → δ → Prop} (htakes : TakesMember member takes)
    {draft final : δ} (h : Reads (members member draft s) final rest) :
    ∃ ms cs, SpellsObject ms cs ∧ Steps takes draft ms final ∧ '\x7b' :: s = cs ++ rest := by
  unfold members at h
  split at h
  · rename_i hclose
    obtain ⟨rfl, rfl⟩ := reads_ok_iff.1 h
    obtain ⟨cs, hcs, heq⟩ := exists_bracketed_nil hclose
    exact ⟨[], cs, ⟨[], .nil, hcs⟩, .nil, heq⟩
  · obtain ⟨ms, part, parts, hparts, hsteps, rfl⟩ := exists_moreMembers htakes h
    exact ⟨ms, _, ⟨part :: parts, hparts, .some⟩, hsteps, by simp⟩

/-! ### Names from a list -/

theorem exists_afterColon {read : Reader α} {value : α} (h : Reads (afterColon read s) value rest) :
    ∃ between mark, Blanks between ∧ s = between ++ ':' :: mark ∧ Reads (read mark) value rest := by
  unfold afterColon at h
  split at h
  · exact absurd h not_reads_error
  · rename_i mark hmark
    obtain ⟨between, hbetween, heq⟩ := exists_colon (.of_eq hmark rfl)
    exact ⟨between, mark.rest, hbetween, heq, h.of_widen⟩

section

variable {variants : List (String × α)} {value : α}

theorem exists_named (h : Reads (choice.named variants s) value rest) :
    ∃ name cs, (name, value) ∈ variants ∧ SpellsString name cs ∧ '"' :: s = cs ++ rest := by
  unfold choice.named at h
  split at h
  · exact absurd h not_reads_error
  · rename_i name hname
    unfold pick at h
    split at h
    · rename_i variant hfind
      obtain ⟨rfl, hrest⟩ := reads_ok_iff.1 h
      obtain ⟨cs, hcs, heq⟩ := exists_spells_string (.of_eq hname hrest)
      have hmem := List.mem_of_find?_eq_some hfind
      have hkey : variant.1 = name.value := by simpa using List.find?_some hfind
      exact ⟨name.value, cs, hkey ▸ hmem, hcs, heq⟩
    · exact absurd h not_reads_error

theorem choice_cases (h : Reads (choice variants s) value rest) :
    (∃ quoted, skipBlanks s = '"' :: quoted ∧ Reads (choice.named variants quoted) value rest) ∨
      ∃ inner quoted mark mid, skipBlanks s = '\x7b' :: inner ∧ skipBlanks inner = '"' :: quoted ∧
        Reads (choice.named variants quoted) value mark ∧
        Reads (afterColon (null "unit") mark) () mid ∧ skipBlanks mid = '\x7d' :: rest := by
  unfold choice at h
  split at h
  · exact absurd h not_reads_error
  · rename_i quoted hskip
    exact .inl ⟨quoted, hskip, h.of_widen⟩
  · rename_i inner hskip
    dsimp only at h
    split at h
    · exact absurd h not_reads_error
    · rename_i variant hvariant
      have hkey : Reads (choice.key variants inner) variant.value variant.rest :=
        .of_eq hvariant rfl
      split at h
      · exact absurd h not_reads_error
      · rename_i unit hunit
        split at h
        · exact absurd h not_reads_error
        · rename_i hclose
          obtain ⟨rfl, rfl⟩ := reads_ok_iff.1 h
          unfold choice.key at hkey
          split at hkey
          · exact absurd hkey not_reads_error
          · rename_i quoted hquote
            exact .inr ⟨inner, quoted, variant.rest, unit.rest, hskip, hquote, hkey.of_widen,
              .of_eq hunit rfl, hclose⟩
          · exact absurd hkey not_reads_error
        · exact absurd h not_reads_error
  · exact absurd h not_reads_error

/-- Names from a list are read from nothing but their texts. -/
theorem exact_choice (variants : List (String × α)) :
    Exact (choice variants) (SpellsChoice variants) := by
  intro s value rest h
  obtain ⟨blanks, hblanks, heq⟩ := exists_blanks s
  obtain ⟨quoted, hskip, hnamed⟩ |
      ⟨inner, quoted, mark, mid, hskip, hquote, hnamed, hnull, hclose⟩ :=
    choice_cases h
  · obtain ⟨name, cs, hmem, hcs, hquoted⟩ := exists_named hnamed
    rw [hskip, hquoted] at heq
    exact ⟨blanks, cs, hblanks, ⟨name, hmem, .inl hcs⟩, heq⟩
  · obtain ⟨name, core, hmem, hcore, hquoted⟩ := exists_named hnamed
    obtain ⟨before, hbefore, hinner⟩ := exists_blanks inner
    obtain ⟨between, mark, hbetween, rfl, hunit⟩ := exists_afterColon hnull
    obtain ⟨gap, hgap, rfl⟩ := exists_null hunit
    obtain ⟨after, hafter, hmid⟩ := exists_blanks mid
    have hpart : SpellsMember (name, "null".toList)
        ((before ++ core ++ between) ++ ':' :: (gap ++ "null".toList ++ after)) :=
      ⟨_, _, ⟨before, core, between, hbefore, hcore, hbetween, rfl⟩,
        ⟨gap, _, after, hgap, rfl, hafter, rfl⟩, rfl⟩
    refine ⟨blanks, _, hblanks, ⟨name, hmem, .inr ⟨[_], .cons hpart .nil, .some⟩⟩, ?_⟩
    rw [heq, hskip, hinner, hquote, hquoted, hmid, hclose]
    simp

end

end LogForwarding.Json
