/-
# Shapes are read as they are spelled

A reader accepts the texts of a grammar if it reads from each of them, after
blanks and whatever follows, the value that the text is for (`Accepts`); it is
exact if it reads a value from nothing else (`Exact`). The readers of strings
accept what spells a string; so do those of sequences and of values that may be
`null`, where the reader of what they hold does, and those of names from a list.
Of an object each member is read in its turn, from the draft that the members
before it have left (`Steps`).

Key definitions: `Json.Accepts`, `Json.Exact`, `Json.SpellsOption`,
`Json.SpellsChoice`, `Json.ReadsMember`, `Json.Steps`.
Key theorems: `Json.accepts_text`, `Json.accepts_sequence`,
`Json.accepts_optional`, `Json.accepts_choice`, `Json.reads_members`.
-/
import LogForwarding.Json.Shape
import LogForwarding.Proofs.Json.Skipping

namespace LogForwarding.Json

variable {α δ : Type} {s : List Char}

/-- The text begins with one of the characters. -/
def Begins (starts : List Char) (cs : List Char) : Prop := ∃ c more, cs = c :: more ∧ c ∈ starts

/-- The reader reads each value from every text for it, which begins in a way that tells it from
the end of an array or object. -/
structure Accepts (read : Reader α) (spells : α → List Char → Prop) : Prop where
  reads : ∀ ⦃value cs⦄, spells value cs → ∀ ⦃blanks⦄, Blanks blanks → ∀ rest,
    Reads (read (blanks ++ (cs ++ rest))) value rest
  begins : ∀ ⦃value cs⦄, spells value cs → Begins ['"', '[', '\x7b', 'n'] cs

/-- The reader reads a value only where the text before the rest is, after blanks, one for it. -/
def Exact (read : Reader α) (spells : α → List Char → Prop) : Prop :=
  ∀ ⦃s value rest⦄, Reads (read s) value rest →
    ∃ blanks cs, Blanks blanks ∧ spells value cs ∧ s = blanks ++ (cs ++ rest)

theorem isBlank_of_begins {c : Char} (h : c ∈ ['"', '[', '\x7b', 'n']) : isBlank c = false := by
  have hall : ∀ c ∈ ['"', '[', '\x7b', 'n'], isBlank c = false := by simp [isBlank]
  exact hall c h

/-- The texts for a value that may be absent. -/
def SpellsOption (spells : α → List Char → Prop) : Option α → List Char → Prop
  | none, cs => cs = "null".toList
  | some value, cs => spells value cs

/-! ### Strings, `null`, and values that may be absent -/

theorem SpellsString.head {text : String} {cs : List Char} (h : SpellsString text cs) :
    ∃ more, cs = '"' :: more := by
  obtain ⟨parts, -, rfl⟩ := h
  exact ⟨_, rfl⟩

/-- Strings are read as they are spelled. -/
theorem accepts_text (expected : String) : Accepts (text expected) SpellsString where
  reads := by
    intro value cs h blanks hblanks rest
    obtain ⟨cs, rfl⟩ := h.head
    have hskip : skipBlanks (blanks ++ ('"' :: cs ++ rest)) = '"' :: (cs ++ rest) :=
      skipBlanks_append hblanks (by decide)
    unfold text
    split <;> rename_i heq
    · obtain ⟨-, rfl⟩ := List.cons.inj (hskip.symm.trans heq)
      exact (reads_string h rest).widen _
    · exact absurd hskip (heq _)
  begins := by
    intro value cs h
    obtain ⟨more, rfl⟩ := h.head
    exact ⟨'"', more, rfl, by simp⟩

theorem reads_null (expected : String) {blanks : List Char} (h : Blanks blanks)
    (rest : List Char) : Reads (null expected (blanks ++ ("null".toList ++ rest))) () rest := by
  have hskip : skipBlanks (blanks ++ ("null".toList ++ rest)) = 'n' :: (['u', 'l', 'l'] ++ rest) :=
    skipBlanks_append h (by decide)
  unfold null
  split <;> rename_i heq
  · obtain ⟨-, rfl⟩ := List.cons.inj (hskip.symm.trans heq)
    split <;> rename_i heq
    · rw [word_append] at heq
      cases heq
    · rw [word_append, Except.ok.injEq] at heq
      subst heq
      exact ⟨_, rfl⟩
  · exact absurd hskip (heq _)

/-- Values that may be absent are read as they are spelled, if no text for a value looks like
`null`. -/
theorem accepts_optional {read : Reader α} {spells : α → List Char → Prop} (h : Accepts read spells)
    (hnull : ∀ value more, ¬ spells value ('n' :: more)) :
    Accepts (optional read) (SpellsOption spells) where
  reads := by
    intro value cs hspells blanks hblanks rest
    unfold optional
    cases value with
    | none =>
      obtain rfl : cs = "null".toList := hspells
      have hskip : skipBlanks (blanks ++ ("null".toList ++ rest)) =
          'n' :: (['u', 'l', 'l'] ++ rest) := skipBlanks_append hblanks (by decide)
      rw [hskip]
      exact (reads_null "null" hblanks rest).map fun _ => none
    | some value =>
      obtain ⟨c, more, rfl, hc⟩ := h.begins hspells
      have hskip : skipBlanks (blanks ++ (c :: more ++ rest)) = c :: (more ++ rest) :=
        skipBlanks_append hblanks (isBlank_of_begins hc)
      split <;> rename_i heq
      · obtain ⟨rfl, -⟩ := List.cons.inj (hskip.symm.trans heq)
        exact absurd hspells (hnull value more)
      · exact (h.reads hspells hblanks rest).map some
  begins := by
    intro value cs hspells
    cases value with
    | none =>
      obtain rfl : cs = "null".toList := hspells
      exact ⟨'n', ['u', 'l', 'l'], rfl, by simp⟩
    | some value => exact h.begins hspells

/-! ### Sequences -/

theorem Padded.opens {read : Reader α} {spells : α → List Char → Prop} (h : Accepts read spells)
    {value : α} {part : List Char} (hpart : Padded (spells value) part) : Opens part := by
  obtain ⟨before, core, after, hbefore, hcore, -, rfl⟩ := hpart
  obtain ⟨c, more, rfl, hc⟩ := h.begins hcore
  have hclosing : c ≠ ']' ∧ c ≠ '\x7d' := by
    have hall : ∀ c ∈ ['"', '[', '\x7b', 'n'], c ≠ ']' ∧ c ≠ '\x7d' := by simp
    exact hall c hc
  exact ⟨before, c, more ++ after, hbefore, isBlank_of_begins hc, hclosing.1, hclosing.2, by simp⟩

/-- After an element the array ends, or a comma and further elements follow. -/
theorem reads_moreElements_of {read : Reader α} {values : List α} {rest : List Char}
    (hend : (values = [] ∧ skipBlanks s = ']' :: rest) ∨
      ∃ value more mid tail, values = value :: more ∧ skipBlanks s = ',' :: mid ∧
        Reads (read mid) value tail ∧ Reads (moreElements read tail) more rest) :
    Reads (moreElements read s) values rest := by
  unfold moreElements
  obtain ⟨rfl, hclose⟩ | ⟨value, more, mid, tail, rfl, hcomma, hvalue, hmore⟩ := hend
  · split <;> rename_i heq
    · exact absurd (hclose.symm.trans heq) (by simp)
    · obtain ⟨-, rfl⟩ := List.cons.inj (hclose.symm.trans heq)
      exact ⟨_, rfl⟩
    · exact absurd (hclose.symm.trans heq) (by simp)
    · exact absurd hclose (by simp_all)
  · split <;> rename_i heq
    · exact absurd (hcomma.symm.trans heq) (by simp)
    · exact absurd (hcomma.symm.trans heq) (by simp)
    · obtain ⟨-, rfl⟩ := List.cons.inj (hcomma.symm.trans heq)
      obtain ⟨hlt, hvalue⟩ := hvalue
      obtain ⟨hlt', hmore⟩ := hmore
      dsimp only
      rw [hvalue]
      dsimp only
      rw [hmore]
      exact ⟨_, rfl⟩
    · exact absurd hcomma (by simp_all)

theorem reads_moreElements {read : Reader α} {spells : α → List Char → Prop}
    (h : Accepts read spells) {values : List α} {parts : List (List Char)}
    (hparts : List.Forall₂ (fun value => Padded (spells value)) values parts) {after : List Char}
    (hafter : Blanks after) (rest : List Char) :
    Reads (moreElements read (after ++ (parts.flatMap (',' :: ·) ++ ']' :: rest))) values rest := by
  induction hparts generalizing after with
  | nil => exact reads_moreElements_of (.inl ⟨rfl, skipBlanks_append hafter (by decide)⟩)
  | @cons value part values parts hpart hparts ih =>
    obtain ⟨before, core, after', hbefore, hcore, hafter', rfl⟩ := hpart
    have hread := h.reads hcore hbefore (after' ++ (parts.flatMap (',' :: ·) ++ ']' :: rest))
    have htail : ((before ++ core ++ after') :: parts).flatMap (',' :: ·) ++ ']' :: rest =
        ',' :: (before ++ (core ++ (after' ++ (parts.flatMap (',' :: ·) ++ ']' :: rest)))) := by
      simp
    rw [htail]
    exact reads_moreElements_of
      (.inr ⟨value, values, _, _, rfl, skipBlanks_append hafter (by decide), hread, ih hafter'⟩)

/-- In an array there is nothing, or there is a first element, and then further ones. -/
theorem reads_sequence_of {read : Reader α} {values : List α} {inner rest : List Char}
    (h : skipBlanks s = '[' :: inner)
    (hend : (values = [] ∧ skipBlanks inner = ']' :: rest) ∨
      ∃ value more tail, values = value :: more ∧ (∀ after, skipBlanks inner ≠ ']' :: after) ∧
        Reads (read inner) value tail ∧ Reads (moreElements read tail) more rest) :
    Reads (sequence read s) values rest := by
  unfold sequence
  split <;> rename_i heq
  · obtain ⟨-, rfl⟩ := List.cons.inj (h.symm.trans heq)
    dsimp only
    obtain ⟨rfl, hclose⟩ | ⟨value, more, tail, rfl, hopen, hvalue, hmore⟩ := hend
    · split <;> rename_i heq
      · obtain ⟨-, rfl⟩ := List.cons.inj (hclose.symm.trans heq)
        exact ⟨_, rfl⟩
      · exact absurd hclose (heq _)
    · obtain ⟨hlt, hvalue⟩ := hvalue
      obtain ⟨hlt', hmore⟩ := hmore
      split <;> rename_i heq
      · exact absurd heq (hopen _)
      · rw [hvalue]
        dsimp only
        rw [hmore]
        exact ⟨_, rfl⟩
  · exact absurd h (heq _)

/-- Sequences are read as they are spelled, if their elements are. -/
theorem accepts_sequence {read : Reader α} {spells : α → List Char → Prop}
    (h : Accepts read spells) : Accepts (sequence read) (SpellsArray spells) where
  reads := by
    rintro values cs ⟨parts, hparts, hcs⟩ blanks hblanks rest
    cases hcs with
    | none hinner =>
      cases hparts
      rw [List.cons_append, List.append_assoc]
      exact reads_sequence_of (skipBlanks_append hblanks (by decide))
        (.inl ⟨rfl, skipBlanks_append hinner (by decide)⟩)
    | @some part parts =>
      cases hparts with
      | @cons value _ values _ hpart hparts =>
        have hopen := fun tail =>
          ((hpart.opens h).skipBlanks_ne (parts.flatMap (',' :: ·) ++ ']' :: rest) tail).1
        obtain ⟨before, core, after, hbefore, hcore, hafter, rfl⟩ := hpart
        have happend :
            '[' :: (before ++ core ++ after ++ parts.flatMap (',' :: ·) ++ [']']) ++ rest =
            '[' :: (before ++ core ++ after ++ (parts.flatMap (',' :: ·) ++ ']' :: rest)) := by
          simp
        have hread := h.reads hcore hbefore (after ++ (parts.flatMap (',' :: ·) ++ ']' :: rest))
        rw [← List.append_assoc core, ← List.append_assoc before,
          ← List.append_assoc before] at hread
        rw [happend]
        exact reads_sequence_of (skipBlanks_append hblanks (by decide))
          (.inr ⟨value, values, _, rfl, hopen, hread, reads_moreElements h hparts hafter rest⟩)
  begins := by
    rintro values cs ⟨parts, -, hcs⟩
    obtain ⟨more, rfl⟩ := hcs.head
    exact ⟨'[', more, rfl, by simp⟩

/-! ### Objects -/

/-- What follows the key of a member takes the draft on, up to where the value stops. -/
def ReadsMember (member : String → δ → Reader δ) (key : String) (value : List Char)
    (draft next : δ) : Prop :=
  ∀ ⦃between gap rest : List Char⦄, Blanks between → Blanks gap → Stops rest →
    Reads (member key draft (between ++ ':' :: (gap ++ (value ++ rest)))) next rest

/-- The members take the draft on, one after the other, each in the way of `takes`. -/
inductive Steps (takes : String → List Char → δ → δ → Prop) :
    δ → List (String × List Char) → δ → Prop where
  | nil {draft : δ} : Steps takes draft [] draft
  | cons {draft next final : δ} {key : String} {value : List Char}
      {members : List (String × List Char)} (h : takes key value draft next)
      (hmembers : Steps takes next members final) :
      Steps takes draft ((key, value) :: members) final

/-- After a member the object ends, or a comma and further members follow. -/
theorem reads_moreMembers_of {member : String → δ → Reader δ} {draft next final : δ}
    {key : String} {quoted mark rest after : List Char} (hopen : skipBlanks s = '"' :: quoted)
    (hkey : Reads (string quoted) key mark) (hmember : Reads (member key draft mark) next rest)
    (hend : (next = final ∧ skipBlanks rest = '\x7d' :: after) ∨
      ∃ more, skipBlanks rest = ',' :: more ∧ Reads (moreMembers member next more) final after) :
    Reads (moreMembers member draft s) final after := by
  obtain ⟨hlt, hkey⟩ := hkey
  obtain ⟨hlt', hmember⟩ := hmember
  unfold moreMembers
  split <;> rename_i heq
  · exact absurd (hopen.symm.trans heq) (by simp)
  · obtain ⟨-, rfl⟩ := List.cons.inj (hopen.symm.trans heq)
    dsimp only
    rw [hkey]
    dsimp only
    rw [hmember]
    dsimp only
    obtain ⟨rfl, hclose⟩ | ⟨more, hcomma, hmore⟩ := hend
    · split <;> rename_i heq
      · exact absurd (hclose.symm.trans heq) (by simp)
      · obtain ⟨-, rfl⟩ := List.cons.inj (hclose.symm.trans heq)
        exact ⟨_, rfl⟩
      · exact absurd (hclose.symm.trans heq) (by simp)
      · exact absurd hclose (by simp_all)
    · split <;> rename_i heq
      · exact absurd (hcomma.symm.trans heq) (by simp)
      · exact absurd (hcomma.symm.trans heq) (by simp)
      · obtain ⟨-, rfl⟩ := List.cons.inj (hcomma.symm.trans heq)
        exact hmore.widen _
      · exact absurd hcomma (by simp_all)
  · exact absurd hopen (by simp_all)

theorem SpellsMember.opens {member : String × List Char} {part : List Char}
    (h : SpellsMember member part) : Opens part := by
  obtain ⟨_, _, ⟨before, core, between, hbefore, hcore, _, rfl⟩, _, rfl⟩ := h
  obtain ⟨core, rfl⟩ := hcore.head
  rw [List.append_assoc]
  exact opens_quote hbefore core _

theorem reads_moreMembers {member : String → δ → Reader δ} {draft final : δ}
    {members : List (String × List Char)} {part : List Char} {parts : List (List Char)}
    (hparts : List.Forall₂ SpellsMember members (part :: parts))
    (hsteps : Steps (ReadsMember member) draft members final) (rest : List Char) :
    Reads (moreMembers member draft (part ++ (parts.flatMap (',' :: ·) ++ '\x7d' :: rest)))
      final rest := by
  induction hsteps generalizing part parts with
  | nil => cases hparts
  | @cons draft next final key value members hmember hmembers ih =>
    cases hparts with
    | cons hpart hparts =>
      obtain ⟨quoted, padded, ⟨before, core, between, hbefore, hcore, hbetween, rfl⟩,
        ⟨gap, text, after, hgap, htext, hafter, rfl⟩, rfl⟩ := hpart
      obtain rfl : value = text := htext.symm
      obtain ⟨core, rfl⟩ := hcore.head
      have happend : before ++ '"' :: core ++ between ++ ':' :: (gap ++ value ++ after) ++
            (parts.flatMap (',' :: ·) ++ '\x7d' :: rest) =
          before ++ '"' :: (core ++ (between ++ ':' :: (gap ++ (value ++ (after ++
            (parts.flatMap (',' :: ·) ++ '\x7d' :: rest)))))) := by
        simp
      rw [happend]
      refine reads_moreMembers_of (skipBlanks_append hbefore (by decide)) (reads_string hcore _)
        (hmember hbetween hgap (stops_tail hafter '\x7d' (by decide) parts rest)) ?_
      obtain ⟨rfl, htail⟩ | ⟨part, more, rfl, htail⟩ := tail_cases parts '\x7d' rest
      · cases hparts
        cases hmembers
        rw [htail]
        exact .inl ⟨rfl, skipBlanks_append hafter (by decide)⟩
      · rw [htail]
        exact .inr ⟨_, skipBlanks_append hafter (by decide), ih hparts⟩

/-- **The members of an object are read in their order**, each from the draft that those before it
have left. -/
theorem reads_members {member : String → δ → Reader δ} {draft final : δ}
    {ms : List (String × List Char)} {cs : List Char} (h : SpellsObject ms ('\x7b' :: cs))
    (hsteps : Steps (ReadsMember member) draft ms final) (rest : List Char) :
    Reads (members member draft (cs ++ rest)) final rest := by
  obtain ⟨parts, hparts, hcs⟩ := h
  generalize htext : '\x7b' :: cs = text at hcs
  unfold members
  cases hcs with
  | @none inner hinner =>
    obtain ⟨-, rfl⟩ := List.cons.inj htext
    cases hparts
    cases hsteps
    have hclose : skipBlanks (inner ++ ['\x7d'] ++ rest) = '\x7d' :: rest := by
      rw [List.append_assoc]
      exact skipBlanks_append hinner (by decide)
    split <;> rename_i heq
    · obtain ⟨-, rfl⟩ := List.cons.inj (hclose.symm.trans heq)
      exact ⟨_, rfl⟩
    · exact absurd hclose (heq _)
  | @some part parts =>
    obtain ⟨-, rfl⟩ := List.cons.inj htext
    have hread := reads_moreMembers hparts hsteps rest
    have happend : part ++ parts.flatMap (',' :: ·) ++ ['\x7d'] ++ rest =
        part ++ (parts.flatMap (',' :: ·) ++ '\x7d' :: rest) := by
      simp
    rw [happend]
    have hopens : Opens part := by
      cases hparts with
      | cons hpart _ => exact hpart.opens
    split <;> rename_i heq
    · exact absurd heq (hopens.skipBlanks_ne _ _).2
    · exact hread

/-! ### Names from a list -/

/-- The texts for a value that has a name: the name, or an object with the name as its only key and
with `null` as value. -/
def SpellsChoice (names : List (String × α)) (value : α) (cs : List Char) : Prop :=
  ∃ name, (name, value) ∈ names ∧
    (SpellsString name cs ∨ SpellsObject [(name, "null".toList)] cs)

theorem reads_afterColon {read : Reader α} {value : α} {between rest after : List Char}
    (hbetween : Blanks between) (h : Reads (read rest) value after) :
    Reads (afterColon read (between ++ ':' :: rest)) value after := by
  obtain ⟨hlt, hcolon⟩ := reads_colon hbetween rest
  unfold afterColon
  rw [hcolon]
  exact h.widen _

section

variable {variants : List (String × α)} {name : String} {value : α} {quoted after : List Char}

theorem reads_named (hpick : pick variants name = .ok value)
    (h : Reads (string quoted) name after) : Reads (choice.named variants quoted) value after := by
  obtain ⟨hlt, hstring⟩ := h
  unfold choice.named
  rw [hstring]
  dsimp only
  rw [hpick]
  exact ⟨hlt, rfl⟩

theorem reads_choice_name (hopen : skipBlanks s = '"' :: quoted)
    (h : Reads (choice.named variants quoted) value after) :
    Reads (choice variants s) value after := by
  unfold choice
  split <;> rename_i heq
  · exact absurd (hopen.symm.trans heq) (by simp)
  · obtain ⟨-, rfl⟩ := List.cons.inj (hopen.symm.trans heq)
    exact h.widen _
  · exact absurd (hopen.symm.trans heq) (by simp)
  · exact absurd hopen (by simp_all)

theorem reads_choice_object {inner mark rest : List Char} (hopen : skipBlanks s = '\x7b' :: inner)
    (hquote : skipBlanks inner = '"' :: quoted)
    (hname : Reads (choice.named variants quoted) value mark)
    (hnull : Reads (afterColon (null "unit") mark) () rest)
    (hclose : skipBlanks rest = '\x7d' :: after) : Reads (choice variants s) value after := by
  have hkey : Reads (choice.key variants inner) value mark := by
    unfold choice.key
    split <;> rename_i heq
    · exact absurd (hquote.symm.trans heq) (by simp)
    · obtain ⟨-, rfl⟩ := List.cons.inj (hquote.symm.trans heq)
      exact hname.widen _
    · exact absurd hquote (by simp_all)
  obtain ⟨hlt, hkey⟩ := hkey
  obtain ⟨hlt', hnull⟩ := hnull
  unfold choice
  split <;> rename_i heq
  · exact absurd (hopen.symm.trans heq) (by simp)
  · exact absurd (hopen.symm.trans heq) (by simp)
  · obtain ⟨-, rfl⟩ := List.cons.inj (hopen.symm.trans heq)
    dsimp only
    rw [hkey]
    dsimp only
    rw [hnull]
    dsimp only
    split <;> rename_i heq
    · exact absurd (hclose.symm.trans heq) (by simp)
    · obtain ⟨-, rfl⟩ := List.cons.inj (hclose.symm.trans heq)
      exact ⟨_, rfl⟩
    · exact absurd hclose (by simp_all)
  · exact absurd hopen (by simp_all)

end

/-- Names from a list are read as they are spelled. -/
theorem accepts_choice {variants names : List (String × α)}
    (hpick : ∀ entry ∈ names, pick variants entry.1 = .ok entry.2) :
    Accepts (choice variants) (SpellsChoice names) where
  reads := by
    rintro value cs ⟨name, hmem, h | ⟨parts, hparts, hcs⟩⟩ blanks hblanks rest
    · obtain ⟨cs, rfl⟩ := h.head
      exact reads_choice_name (skipBlanks_append hblanks (by decide))
        (reads_named (hpick _ hmem) (reads_string h rest))
    · cases hparts with
      | cons hpart hparts =>
        cases hparts
        cases hcs
        obtain ⟨_, _, ⟨before, core, between, hbefore, hcore, hbetween, rfl⟩,
          ⟨gap, text, after, hgap, htext, hafter, rfl⟩, rfl⟩ := hpart
        obtain rfl : text = "null".toList := htext
        obtain ⟨core, rfl⟩ := hcore.head
        have happend : '\x7b' :: (before ++ '"' :: core ++ between ++ ':' :: (gap ++
              "null".toList ++ after) ++ [].flatMap (',' :: ·) ++ ['\x7d']) ++ rest =
            '\x7b' :: (before ++ '"' :: (core ++ (between ++ ':' :: (gap ++ ("null".toList ++
              (after ++ '\x7d' :: rest)))))) := by
          simp
        rw [happend]
        exact reads_choice_object (skipBlanks_append hblanks (by decide))
          (skipBlanks_append hbefore (by decide))
          (reads_named (hpick _ hmem) (reads_string hcore _))
          (reads_afterColon hbetween (reads_null "unit" hgap _))
          (skipBlanks_append hafter (by decide))
  begins := by
    rintro value cs ⟨name, -, h | ⟨parts, -, h⟩⟩
    · obtain ⟨more, rfl⟩ := h.head
      exact ⟨'"', more, rfl, by simp⟩
    · obtain ⟨more, rfl⟩ := h.head
      exact ⟨'\x7b', more, rfl, by simp⟩

end LogForwarding.Json
