/-
# The ends of a text, and texts that show nothing

A block of configuration is joined to its neighbours without the newlines at
its ends, and a directory is joined to a file name without the slashes it ends
in. What trimming leaves of a text is known from how it stands in the text: it
stands between two runs of the character, and neither begins nor ends with it
(`Text.Strips`).

A text of blanks is as good as none. The blanks are the characters with the
White_Space property of Unicode: those of ASCII, the next line and no-break
spaces, the spaces of the General Punctuation block, the ideographic space and
the line and paragraph separators.

Key definitions: `Text.trimEnd`, `Text.trim`, `Text.Strips`,
`Text.isBlankText`.
Key theorems: `Text.strips_iff`.
-/

namespace LogForwarding.Text

/-! ### Trimming -/

/-- `s` without the run of `c` that it ends in. -/
def trimEnd (c : Char) (s : String) : String :=
  String.ofList (s.toList.reverse.dropWhile (· == c)).reverse

/-- `s` without the runs of `c` at both of its ends. -/
def trim (c : Char) (s : String) : String :=
  trimEnd c (String.ofList (s.toList.dropWhile (· == c)))

/-- `block` is what `s` holds between the runs of `c` at its ends. -/
structure Strips (c : Char) (s block : String) : Prop where
  /-- Around the block there is nothing but `c`. -/
  between : ∃ before after, s =
    String.ofList (List.replicate before c) ++ block ++ String.ofList (List.replicate after c)
  /-- It does not begin with `c`. -/
  head : block.toList.head? ≠ some c
  /-- It does not end with `c`. -/
  last : block.toList.getLast? ≠ some c

theorem dropWhile_replicate_append (c : Char) (n : Nat) (cs : List Char) :
    (List.replicate n c ++ cs).dropWhile (· == c) = cs.dropWhile (· == c) :=
  List.dropWhile_append_of_pos fun x hx => by simp [List.eq_of_mem_replicate hx]

theorem dropWhile_eq_self_of_head {c : Char} {cs : List Char} (h : cs.head? ≠ some c) :
    cs.dropWhile (· == c) = cs := by
  cases cs with
  | nil => rfl
  | cons x rest => exact List.dropWhile_cons_of_neg (by simpa using h)

/-- A run of `c` is all that is dropped, and what follows it does not begin with `c`. -/
theorem exists_replicate_append (c : Char) (cs : List Char) :
    ∃ n, cs = List.replicate n c ++ cs.dropWhile (· == c) ∧
      (cs.dropWhile (· == c)).head? ≠ some c := by
  induction cs with
  | nil => exact ⟨0, rfl, by simp⟩
  | cons x rest ih =>
    by_cases hx : x = c
    · obtain ⟨n, hrest, hhead⟩ := ih
      rw [List.dropWhile_cons_of_pos (by simpa using hx)]
      refine ⟨n + 1, ?_, hhead⟩
      rw [List.replicate_succ, List.cons_append, ← hrest, hx]
    · rw [List.dropWhile_cons_of_neg (by simpa using hx)]
      exact ⟨0, rfl, by simpa using hx⟩

theorem trimEnd_ofList_append_replicate (c : Char) (n : Nat) (cs : List Char) :
    trimEnd c (String.ofList (cs ++ List.replicate n c)) = trimEnd c (String.ofList cs) := by
  simp only [trimEnd, String.toList_ofList, List.reverse_append, List.reverse_replicate,
    dropWhile_replicate_append]

/-- Trimming strips a text. -/
theorem strips_trim (c : Char) (s : String) : Strips c s (trim c s) := by
  obtain ⟨before, hs, hhead⟩ := exists_replicate_append c s.toList
  obtain ⟨after, hrest, hlast⟩ := exists_replicate_append c (s.toList.dropWhile (· == c)).reverse
  have hblock : (trim c s).toList =
      ((s.toList.dropWhile (· == c)).reverse.dropWhile (· == c)).reverse := by
    simp [trim, trimEnd]
  have hends : s.toList.dropWhile (· == c) = (trim c s).toList ++ List.replicate after c := by
    rw [hblock, ← List.reverse_replicate, ← List.reverse_append, ← hrest, List.reverse_reverse]
  refine ⟨⟨before, after, String.ext ?_⟩, fun hc => hhead ?_, ?_⟩
  · rw [String.toList_append, String.toList_append, String.toList_ofList, String.toList_ofList,
      List.append_assoc, ← hends, ← hs]
  · rw [hends, List.head?_append, hc, Option.some_or]
  · rwa [hblock, List.getLast?_reverse]

/-- **Trimming is stripping**, and there is one way to strip a text. -/
theorem strips_iff {c : Char} {s block : String} : Strips c s block ↔ block = trim c s := by
  refine ⟨?_, fun h => h ▸ strips_trim c s⟩
  rintro ⟨⟨before, after, rfl⟩, hhead, hlast⟩
  have hblock : trimEnd c block = block := by
    rw [trimEnd, dropWhile_eq_self_of_head (by rwa [List.head?_reverse]), List.reverse_reverse,
      String.ofList_toList]
  rw [trim, String.append_assoc, String.toList_append, String.toList_ofList,
    dropWhile_replicate_append, String.toList_append, String.toList_ofList]
  by_cases hempty : block.toList = []
  · -- Nothing is between the two runs, and the first takes the second with it.
    rw [hempty, List.nil_append, ← List.append_nil (List.replicate after c),
      dropWhile_replicate_append]
    exact String.ext hempty
  · rw [dropWhile_eq_self_of_head, trimEnd_ofList_append_replicate, String.ofList_toList, hblock]
    obtain ⟨x, rest, hx⟩ := List.exists_cons_of_ne_nil hempty
    rwa [hx] at hhead ⊢

/-! ### Blanks -/

/-- `c` has the White_Space property. -/
def isBlank (c : Char) : Bool :=
  let n := c.toNat
  (0x09 ≤ n && n ≤ 0x0d) || n == 0x20 || n == 0x85 || n == 0xa0 || n == 0x1680 ||
    (0x2000 ≤ n && n ≤ 0x200a) || n == 0x2028 || n == 0x2029 || n == 0x202f || n == 0x205f ||
    n == 0x3000

/-- `s` shows nothing: each of its characters is blank. -/
def isBlankText (s : String) : Bool := s.toList.all isBlank

end LogForwarding.Text
