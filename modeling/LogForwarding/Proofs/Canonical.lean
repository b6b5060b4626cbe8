/-
# Templates that are written canonically

Segments are canonical if each key may stand in a placeholder, and literal
text is not empty, holds no placeholder and is not followed by more literal
text. What is written from canonical segments is read back as these segments:
a placeholder begins with two opening braces, and has no other, so it can
neither end inside literal text nor begin there.

Key definitions: `Template.isKey`, `Template.isLiteral`,
`Template.isCanonical`.
Key theorems: `Template.placeholder?_eq_some_iff`, `Template.segments_write`.
-/
import LogForwarding.Template

namespace LogForwarding

namespace Template

/-- `key` may stand in a placeholder. -/
def isKey (key : String) : Bool :=
  match key.toList with
  | [] => false
  | first :: rest => isKeyStart first && rest.all isKeyChar

/-- The segment is a placeholder with a key that may stand in one. -/
def isPlaceholder : Segment → Bool
  | .text _ => false
  | .field key | .embed key => isKey key

/-- No placeholder begins anywhere in the text. -/
def isLiteral : List Char → Bool
  | [] => true
  | c :: rest => (placeholder? (c :: rest)).isNone && isLiteral rest

/-- Literal text comes first. -/
def startsWithText : List Segment → Bool
  | .text _ :: _ => true
  | _ => false

/-- The segments are what a template is read as. -/
def isCanonical : List Segment → Bool
  | [] => true
  | .text literal :: rest =>
    literal != "" && isLiteral literal.toList && !startsWithText rest && isCanonical rest
  | segment :: rest => isPlaceholder segment && isCanonical rest

/-! ### One placeholder -/

theorem ofSign?_eq_some_iff {sign : Char} {key : String} {segment : Segment} :
    ofSign? sign key = some segment ↔
      sign = '.' ∧ segment = .field key ∨ sign = '>' ∧ segment = .embed key := by
  unfold ofSign?
  split
  · simp_all [eq_comm]
  · split <;> simp_all [eq_comm]

theorem isKey_ofList {first : Char} {rest : List Char} :
    isKey (String.ofList (first :: rest)) = (isKeyStart first && rest.all isKeyChar) := by
  simp [isKey]

/-- A text begins with a placeholder if and only if it begins as that placeholder is written. -/
theorem placeholder?_eq_some_iff {cs after : List Char} {segment : Segment} :
    placeholder? cs = some (segment, after) ↔
      isPlaceholder segment ∧ cs = segment.write.toList ++ after := by
  constructor
  · intro h
    unfold placeholder? at h
    split at h
    · rename_i sign first rest
      split at h
      · rename_i hstart
        split at h
        · rename_i tail hdrop
          obtain ⟨s, hs, he⟩ := Option.map_eq_some_iff.1 h
          cases he
          have hkey : isKey (String.ofList (first :: rest.takeWhile isKeyChar)) := by
            rw [isKey_ofList, hstart, Bool.true_and]
            exact List.all_takeWhile
          have hrest : rest = rest.takeWhile isKeyChar ++ '\x7d' :: '\x7d' :: after := by
            rw [← hdrop, List.takeWhile_append_dropWhile]
          rcases ofSign?_eq_some_iff.1 hs with ⟨rfl, rfl⟩ | ⟨rfl, rfl⟩
          · exact ⟨hkey, by simpa [Segment.write] using hrest⟩
          · exact ⟨hkey, by simpa [Segment.write] using hrest⟩
        · cases h
      · cases h
    · cases h
  · rintro ⟨hp, rfl⟩
    have hread : ∀ sign key, isKey key → ofSign? sign key = some segment →
        placeholder? ('\x7b' :: '\x7b' :: sign :: (key.toList ++ '\x7d' :: '\x7d' :: after)) =
          some (segment, after) := by
      intro sign key hkey hsign
      unfold isKey at hkey
      split at hkey
      · cases hkey
      · rename_i first rest hchars
        obtain ⟨hstart, hall⟩ := Bool.and_eq_true_iff.1 hkey
        have hall' : ∀ c ∈ rest, isKeyChar c := List.all_eq_true.1 hall
        have hbrace : isKeyChar '\x7d' = false := rfl
        rw [hchars]
        simp only [List.cons_append, placeholder?, hstart, if_true,
          List.dropWhile_append_of_pos hall', List.takeWhile_append_of_pos hall',
          List.dropWhile_cons, List.takeWhile_cons, hbrace, List.append_nil, Bool.false_eq_true,
          if_false]
        rw [← hchars, String.ofList_toList, hsign]
        rfl
    cases segment with
    | text literal => cases hp
    | field key => simpa [Segment.write] using hread '.' key hp rfl
    | embed key => simpa [Segment.write] using hread '>' key hp rfl

/-! ### Literal text beside a placeholder -/

/-- The text is empty, or begins as every placeholder does. -/
def Opens (cs : List Char) : Prop := cs = [] ∨ ∃ rest, cs = '\x7b' :: '\x7b' :: rest

theorem opens_write {segments : List Segment} (h : startsWithText segments = false) :
    Opens (write segments).toList := by
  match segments with
  | [] => exact .inl rfl
  | .text _ :: _ => cases h
  | .field key :: rest => exact .inr ⟨_, by simp [write, Segment.write]; rfl⟩
  | .embed key :: rest => exact .inr ⟨_, by simp [write, Segment.write]; rfl⟩

/-- After its two opening braces a placeholder has none. -/
theorem exists_write_of_isPlaceholder {segment : Segment} (h : isPlaceholder segment) :
    ∃ body, segment.write.toList = '\x7b' :: '\x7b' :: body ∧ body ≠ [] ∧ '\x7b' ∉ body := by
  have hkey : ∀ key, isKey key → '\x7b' ∉ key.toList := by
    intro key hk
    unfold isKey at hk
    split at hk
    · cases hk
    · rename_i first rest hchars
      obtain ⟨hstart, hall⟩ := Bool.and_eq_true_iff.1 hk
      rw [hchars, List.mem_cons]
      rintro (rfl | hmem)
      · cases hstart
      · cases List.all_eq_true.1 hall _ hmem
  cases segment with
  | text literal => cases h
  | field key =>
    refine ⟨'.' :: (key.toList ++ ['\x7d', '\x7d']), by simp [Segment.write], by simp, ?_⟩
    simpa using hkey key h
  | embed key =>
    refine ⟨'>' :: (key.toList ++ ['\x7d', '\x7d']), by simp [Segment.write], by simp, ?_⟩
    simpa using hkey key h

/-- No placeholder begins in a text and ends in the placeholder after it. -/
theorem placeholder?_append {c : Char} {cs after : List Char}
    (hnone : placeholder? (c :: cs) = none) (ha : Opens after) :
    placeholder? (c :: cs ++ after) = none := by
  rw [Option.eq_none_iff_forall_ne_some]
  rintro ⟨segment, tail⟩ hsome
  obtain ⟨hp, happ⟩ := placeholder?_eq_some_iff.1 hsome
  have hnot : ∀ rest, c :: cs ≠ segment.write.toList ++ rest := by
    intro rest hc
    rw [placeholder?_eq_some_iff.2 ⟨hp, hc⟩] at hnone
    cases hnone
  rcases List.append_eq_append_iff.1 happ with ⟨beyond, hw, hafter⟩ | ⟨within, hc, _⟩
  · -- The placeholder would begin in the text and go on for `beyond`, into its own braces.
    cases beyond with
    | nil => exact hnot [] (by simpa using hw.symm)
    | cons b beyond =>
      obtain ⟨body, hbody, hne, hbrace⟩ := exists_write_of_isPlaceholder hp
      rw [hbody] at hw
      rcases ha with rfl | ⟨rest, rfl⟩
      · cases hafter
      · obtain ⟨rfl, hbeyond⟩ := List.cons.inj hafter
        cases cs with
        | nil =>
          obtain ⟨_, hw⟩ := List.cons.inj hw
          obtain ⟨_, rfl⟩ := List.cons.inj hw
          cases body with
          | nil => exact hne rfl
          | cons first body =>
            have hfirst : '\x7b' = first := (List.cons.inj hbeyond).1
            exact hbrace (hfirst ▸ List.mem_cons_self)
        | cons d cs =>
          obtain ⟨_, hw⟩ := List.cons.inj hw
          obtain ⟨_, rfl⟩ := List.cons.inj hw
          exact hbrace (by simp)
  · exact hnot _ hc

/-! ### Reading back -/

theorem scan_placeholder {cs after : List Char} {segment : Segment}
    (h : placeholder? cs = some (segment, after)) : scan cs = segment :: scan after := by
  rw [scan]
  split
  · simp_all
  · simp_all

theorem scan_literal {c : Char} {cs : List Char} (h : placeholder? (c :: cs) = none) :
    scan (c :: cs) = consText c (scan cs) := by
  rw [scan]
  split
  · simp_all
  · rfl

theorem consText_of_not_startsWithText {c : Char} {segments : List Segment}
    (h : startsWithText segments = false) :
    consText c segments = .text (String.ofList [c]) :: segments := by
  match segments with
  | [] => rfl
  | .text _ :: _ => cases h
  | .field _ :: _ => rfl
  | .embed _ :: _ => rfl

/-- Literal text is read as one segment, up to where a placeholder begins. -/
theorem scan_append {c : Char} {cs after : List Char} (hcs : isLiteral (c :: cs))
    (ha : Opens after) (hs : startsWithText (scan after) = false) :
    scan (c :: cs ++ after) = .text (String.ofList (c :: cs)) :: scan after := by
  induction cs generalizing c with
  | nil =>
    obtain ⟨hnone, _⟩ := Bool.and_eq_true_iff.1 hcs
    have happ := placeholder?_append (Option.isNone_iff_eq_none.1 hnone) ha
    rw [List.cons_append, List.nil_append] at happ ⊢
    rw [scan_literal happ, consText_of_not_startsWithText hs]
  | cons d cs ih =>
    obtain ⟨hnone, hrest⟩ := Bool.and_eq_true_iff.1 hcs
    have happ := placeholder?_append (Option.isNone_iff_eq_none.1 hnone) ha
    rw [List.cons_append] at happ ⊢
    rw [scan_literal happ, ih hrest, consText]
    have hjoin : String.singleton c ++ String.ofList (d :: cs) = String.ofList (c :: d :: cs) := by
      apply String.toList_injective
      simp
    rw [hjoin]

/-- **Canonical segments are read back.** -/
theorem segments_write {segments : List Segment} (h : isCanonical segments) :
    Template.segments (write segments) = segments := by
  unfold Template.segments
  induction segments with
  | nil =>
    rw [write, scan]
    rfl
  | cons segment rest ih =>
    rw [write, String.toList_append]
    cases segment with
    | text literal =>
      simp only [isCanonical, Bool.and_eq_true, bne_iff_ne, Bool.not_eq_true'] at h
      obtain ⟨⟨⟨hne, hliteral⟩, hnext⟩, hrest⟩ := h
      have hread := ih hrest
      rw [Segment.write]
      cases hchars : literal.toList with
      | nil => exact absurd (String.toList_eq_nil_iff.1 hchars) hne
      | cons c cs =>
        rw [hchars] at hliteral
        rw [scan_append hliteral (opens_write hnext) (by rw [hread, hnext]), hread, ← hchars,
          String.ofList_toList]
    | field key =>
      obtain ⟨hkey, hrest⟩ := Bool.and_eq_true_iff.1 h
      rw [scan_placeholder (placeholder?_eq_some_iff.2 ⟨hkey, rfl⟩), ih hrest]
    | embed key =>
      obtain ⟨hkey, hrest⟩ := Bool.and_eq_true_iff.1 h
      rw [scan_placeholder (placeholder?_eq_some_iff.2 ⟨hkey, rfl⟩), ih hrest]

end Template

end LogForwarding
