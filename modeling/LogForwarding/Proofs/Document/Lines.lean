/-
# Lines of a text

A text is divided into lines at its newlines; what follows the last newline is
a line too. Where each line is closed by a newline and holds no other, the
lines are read back, and an empty one after them.

A block of text loses the newlines at its ends when it is joined to others. A
text made of lines that are not empty begins with no newline and ends in one,
and loses no other.

Key definitions: `Text.lines`, `Text.unlines`, `Text.EndsInText`, `Text.Closed`.
Key theorems: `Text.lines_unlines`, `Text.Closed.trim`.
-/
import LogForwarding.Proofs.Toml.Quoting
import LogForwarding.Text.Trim

namespace LogForwarding

namespace Text

/-! ### Division into lines -/

/-- The lines of a text. -/
def lines (s : String) : List String := (s.toList.splitOn '\n').map String.ofList

/-- The text of these lines, each closed by a newline. -/
def unlines : List String → String
  | [] => ""
  | line :: rest => line ++ "\n" ++ unlines rest

@[simp] theorem unlines_nil : unlines [] = "" := rfl

@[simp] theorem unlines_cons (line : String) (rest : List String) :
    unlines (line :: rest) = line ++ ("\n" ++ unlines rest) := by
  rw [unlines, String.append_assoc]

@[simp] theorem unlines_append (as bs : List String) :
    unlines (as ++ bs) = unlines as ++ unlines bs := by
  induction as with
  | nil => simp
  | cons a as ih => simp [ih, String.append_assoc]

/-- **Lines are read back.** -/
theorem lines_unlines {ls : List String} (h : ∀ line ∈ ls, '\n' ∉ line.toList) :
    lines (unlines ls) = ls ++ [""] := by
  induction ls with
  | nil => rfl
  | cons line rest ih =>
    obtain ⟨hline, hrest⟩ := List.forall_mem_cons.1 h
    have hone : line.toList.splitOn '\n' = [line.toList] :=
      List.splitOn_eq_singleton (by simpa using hline)
    have hlist : (unlines (line :: rest)).toList =
        line.toList ++ '\n' :: (unlines rest).toList := by simp
    rw [lines, hlist, List.splitOn_append_cons_self, hone, List.map_append, List.map_singleton,
      String.ofList_toList]
    exact congrArg (line :: ·) (ih hrest)

/-! ### Ends of a text -/

/-- The last character of the text is not a newline. -/
def EndsInText (s : String) : Prop := ∃ c, s.toList.getLast? = some c ∧ c ≠ '\n'

theorem EndsInText.append_left {b : String} (h : EndsInText b) (a : String) :
    EndsInText (a ++ b) := by
  obtain ⟨c, hc, hne⟩ := h
  exact ⟨c, by simp [List.getLast?_append, hc], hne⟩

theorem EndsInText.trimEnd_eq {s : String} (h : EndsInText s) : trimEnd '\n' s = s := by
  obtain ⟨c, hc, hne⟩ := h
  obtain ⟨cs, hcs⟩ := List.getLast?_eq_some_iff.1 hc
  rw [trimEnd, hcs, List.reverse_append, List.reverse_singleton, List.singleton_append,
    List.dropWhile_cons_of_neg (by simpa using hne), ← List.singleton_append,
    ← List.reverse_singleton, ← List.reverse_append, List.reverse_reverse, ← hcs,
    String.ofList_toList]

theorem trimEnd_append_newline (s : String) : trimEnd '\n' (s ++ "\n") = trimEnd '\n' s := by
  simp [trimEnd]

/-- A value that is quoted ends in its quote. -/
theorem endsInText_quote (s : String) : EndsInText (Toml.quote s) := by
  refine ⟨'"', ?_, by decide⟩
  rw [Toml.toList_quote, ← List.cons_append, List.getLast?_concat]

/-- A text that begins with another character can only lose newlines at its end. -/
theorem trim_of_head {s : String} {c : Char} (hc : s.toList.head? = some c) (hne : c ≠ '\n') :
    trim '\n' s = trimEnd '\n' s := by
  obtain ⟨cs, hcs⟩ := List.head?_eq_some_iff.1 hc
  rw [trim, hcs, List.dropWhile_cons_of_neg (by simpa using hne), ← hcs, String.ofList_toList]

/-- The text begins with no newline and ends in exactly one. -/
def Closed (s : String) : Prop :=
  ∃ u c, s = u ++ "\n" ∧ u.toList.head? = some c ∧ c ≠ '\n' ∧ EndsInText u

/-- Lines that are not empty make a closed text. -/
theorem closed_unlines {ls : List String} (hne : ls ≠ [])
    (h : ∀ line ∈ ls, line ≠ "" ∧ '\n' ∉ line.toList) : Closed (unlines ls) := by
  induction ls with
  | nil => exact absurd rfl hne
  | cons line rest ih =>
    obtain ⟨⟨hline, hnewline⟩, hrest⟩ := List.forall_mem_cons.1 h
    have hchars : line.toList ≠ [] := fun hnil => hline (String.toList_eq_nil_iff.1 hnil)
    have hhead : line.toList.head? = some (line.toList.head hchars) :=
      List.head?_eq_some_head hchars
    have hfirst : line.toList.head hchars ≠ '\n' :=
      fun heq => hnewline (heq ▸ List.head_mem hchars)
    cases rest with
    | nil =>
      refine ⟨line, _, by simp, hhead, hfirst, _, List.getLast?_eq_some_getLast hchars, ?_⟩
      exact fun heq => hnewline (heq ▸ List.getLast_mem hchars)
    | cons next rest =>
      obtain ⟨u, c, hu, _, _, hl⟩ := ih (by simp) hrest
      refine ⟨line ++ "\n" ++ u, _, ?_, ?_, hfirst, hl.append_left _⟩
      · simp only [unlines_cons line, hu, String.append_assoc]
      · simp [hhead]

/-- Closed texts can be put together with a blank line between them. -/
theorem Closed.append {a b : String} (ha : Closed a) (hb : Closed b) :
    Closed (a ++ ("\n" ++ b)) := by
  obtain ⟨u, c, rfl, hc, hne, _⟩ := ha
  obtain ⟨v, _, rfl, _, _, hl⟩ := hb
  exact ⟨u ++ "\n" ++ "\n" ++ v, c, by simp only [String.append_assoc], by simp [hc], hne,
    hl.append_left _⟩

/-- **Trimming opens a closed text.** Only the newline that it ends in is left out, whether it is
still there or not. -/
theorem Closed.trim {s closed : String} (hclosed : Closed closed)
    (h : s = closed ∨ s ++ "\n" = closed) :
    Text.trim '\n' s ++ "\n" = closed ∧ Text.trim '\n' s ≠ "" := by
  obtain ⟨u, c, rfl, hc, hne, hl⟩ := hclosed
  have hs : s = u ++ "\n" ∨ s = u := h.imp_right fun heq => by simpa using heq
  have hhead : s.toList.head? = some c := by
    rcases hs with rfl | rfl <;> simp [hc]
  have htrim : Text.trim '\n' s = u := by
    rw [trim_of_head hhead hne]
    rcases hs with rfl | rfl
    · rw [trimEnd_append_newline, hl.trimEnd_eq]
    · exact hl.trimEnd_eq
  rw [htrim]
  refine ⟨rfl, ?_⟩
  rintro rfl
  cases hc

end Text

end LogForwarding
