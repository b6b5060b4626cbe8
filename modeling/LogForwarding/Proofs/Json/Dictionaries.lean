/-
# Dictionaries are read as they are spelled

A dictionary is spelled by its entries, in their order; a key may come more
than once. It is read by taking up one entry after the other, so that of the
values under one key the last is kept. What a value is made into when it is
read is left open (`SpellsVia`), and may be a dictionary again.

Key definitions: `Json.SpellsVia`, `Json.SpellsDictionary`, `Json.ofEntries`,
`Json.last?`.
Key theorems: `Json.getElem?_ofEntries`, `Json.accepts_dictionary`,
`Json.exact_dictionary`.
-/
import LogForwarding.Proofs.Json.Exact.Shapes
import Mathlib.Data.List.Induction

namespace LogForwarding.Json

variable {α β γ : Type}

/-- The texts for a value that `make` makes from something with the texts `spells`. -/
def SpellsVia (make : β → α) (spells : β → List Char → Prop) (value : α) (cs : List Char) : Prop :=
  ∃ given, make given = value ∧ spells given cs

/-- The texts for a dictionary with the entries, in their order. -/
def SpellsDictionary (spells : β → List Char → Prop) (entries : List (String × β))
    (cs : List Char) : Prop :=
  ∃ members, List.Forall₂ (fun e m => e.1 = m.1 ∧ spells e.2 m.2) entries members ∧
    SpellsObject members cs

/-- The dictionary with the entries taken up into it, one after the other. -/
def takeUp (make : β → α) (dictionary : Std.ExtTreeMap String α) (entries : List (String × β)) :
    Std.ExtTreeMap String α :=
  entries.foldl (fun dictionary e => dictionary.insert e.1 (make e.2)) dictionary

/-- The dictionary of the entries, with what is made of their values. -/
def ofEntries (make : β → α) (entries : List (String × β)) : Std.ExtTreeMap String α :=
  takeUp make ∅ entries

/-- The value of the last entry under the key. -/
def last? (key : String) (entries : List (String × β)) : Option β := entries.reverse.lookup key

/-- **Of the values under one key the last is kept.** -/
theorem getElem?_ofEntries (make : β → α) (entries : List (String × β)) (key : String) :
    (ofEntries make entries)[key]? = (last? key entries).map make := by
  induction entries using List.reverseRecOn with
  | nil => rfl
  | append_singleton entries e ih =>
    obtain ⟨name, value⟩ := e
    rw [ofEntries, takeUp, List.foldl_append, List.foldl_cons, List.foldl_nil, last?,
      List.reverse_append, List.reverse_singleton, List.singleton_append, List.lookup_cons]
    simp only [Std.ExtTreeMap.getElem?_insert, Std.LawfulEqCmp.compare_eq_iff_eq]
    by_cases hname : name = key
    · rw [if_pos hname, beq_iff_eq.2 hname.symm]
      rfl
    · rw [if_neg hname, beq_eq_false_iff_ne.2 (Ne.symm hname)]
      exact ih

/-! ### Values that something is made of -/

theorem spellsVia_id {spells : α → List Char → Prop} : SpellsVia id spells = spells := by
  funext value cs
  simp [SpellsVia]

/-- Blanks around the text make no difference to what is made. -/
theorem padded_spellsVia_iff {make : β → α} {spells : β → List Char → Prop} {value : α}
    {cs : List Char} :
    Padded (SpellsVia make spells value) cs ↔ ∃ given, make given = value ∧
      Padded (spells given) cs := by
  constructor
  · rintro ⟨before, core, after, hbefore, ⟨given, hgiven, hcore⟩, hafter, heq⟩
    exact ⟨given, hgiven, before, core, after, hbefore, hcore, hafter, heq⟩
  · rintro ⟨given, hgiven, before, core, after, hbefore, hcore, hafter, heq⟩
    exact ⟨before, core, after, hbefore, ⟨given, hgiven, hcore⟩, hafter, heq⟩

theorem Accepts.map {read : Reader β} {make : γ → β} {spells : γ → List Char → Prop}
    (h : Accepts read (SpellsVia make spells)) (f : β → α) :
    Accepts (fun s => (read s).map (·.map f)) (SpellsVia (f ∘ make) spells) where
  reads := by
    rintro _ cs ⟨given, rfl, hcs⟩ blanks hblanks rest
    exact (h.reads ⟨given, rfl, hcs⟩ hblanks rest).map f
  begins := by
    rintro _ cs ⟨given, rfl, hcs⟩
    exact h.begins ⟨given, rfl, hcs⟩

theorem Exact.map {read : Reader β} {make : γ → β} {spells : γ → List Char → Prop}
    (h : Exact read (SpellsVia make spells)) (f : β → α) :
    Exact (fun s => (read s).map (·.map f)) (SpellsVia (f ∘ make) spells) := by
  intro s value rest hread
  obtain ⟨value, hvalue, rfl⟩ := hread.of_map
  obtain ⟨blanks, cs, hblanks, ⟨given, rfl, hcs⟩, heq⟩ := h hvalue
  exact ⟨blanks, cs, hblanks, ⟨given, rfl, hcs⟩, heq⟩

/-! ### Entries -/

section

variable {read : Reader α} {make : β → α} {spells : β → List Char → Prop}

/-- What follows the key of an entry is read into the dictionary. -/
def entry (read : Reader α) (key : String) (draft : Std.ExtTreeMap String α) :
    Reader (Std.ExtTreeMap String α) :=
  afterColon fun s => (read s).map (·.map (draft.insert key))

/-- Each entry is taken up in its turn. -/
theorem steps_entries (h : Accepts read (SpellsVia make spells)) {entries : List (String × β)}
    {members : List (String × List Char)}
    (hentries : List.Forall₂ (fun e m => e.1 = m.1 ∧ spells e.2 m.2) entries members)
    (draft : Std.ExtTreeMap String α) :
    Steps (ReadsMember (entry read)) draft members (takeUp make draft entries) := by
  induction hentries generalizing draft with
  | nil => exact .nil
  | @cons e m entries members he _ ih =>
    obtain ⟨name, value⟩ := e
    obtain ⟨key, text⟩ := m
    obtain ⟨rfl, hspells⟩ := he
    refine .cons (fun between gap rest hbetween hgap _ => ?_) (ih _)
    exact reads_afterColon hbetween
      ((h.reads ⟨value, rfl, hspells⟩ hgap rest).map (draft.insert name))

/-- How an entry takes a dictionary on. -/
def TakesEntry (make : β → α) (spells : β → List Char → Prop) (key : String) (text : List Char)
    (draft next : Std.ExtTreeMap String α) : Prop :=
  ∃ value, spells value text ∧ next = draft.insert key (make value)

theorem takesMember_entry (h : Exact read (SpellsVia make spells)) :
    TakesMember (entry read) (TakesEntry make spells) := by
  intro key draft next s rest hread
  obtain ⟨between, mark, hbetween, rfl, hmark⟩ := exists_afterColon hread
  obtain ⟨_, hvalue, rfl⟩ := hmark.of_map
  obtain ⟨gap, text, hgap, ⟨value, rfl, htext⟩, rfl⟩ := h hvalue
  exact ⟨between, gap, text, hbetween, hgap, ⟨value, htext, rfl⟩, rfl⟩

theorem exists_entries {draft final : Std.ExtTreeMap String α}
    {members : List (String × List Char)}
    (h : Steps (TakesEntry make spells) draft members final) :
    ∃ entries : List (String × β),
      List.Forall₂ (fun e m => e.1 = m.1 ∧ spells e.2 m.2) entries members ∧
        final = takeUp make draft entries := by
  induction h with
  | nil => exact ⟨[], .nil, rfl⟩
  | @cons draft next final key text members htakes _ ih =>
    obtain ⟨value, hvalue, rfl⟩ := htakes
    obtain ⟨entries, hentries, rfl⟩ := ih
    exact ⟨(key, value) :: entries, .cons ⟨rfl, hvalue⟩ hentries, rfl⟩

/-! ### Dictionaries -/

theorem SpellsDictionary.head {entries : List (String × β)} {cs : List Char}
    (h : SpellsDictionary spells entries cs) : ∃ more, cs = '\x7b' :: more := by
  obtain ⟨members, -, parts, -, hcs⟩ := h
  exact hcs.head

/-- Dictionaries are read as they are spelled, if their values are. -/
theorem accepts_dictionary (h : Accepts read (SpellsVia make spells)) :
    Accepts (dictionary read) (SpellsVia (ofEntries make) (SpellsDictionary spells)) where
  reads := by
    rintro _ cs ⟨entries, rfl, hcs⟩ blanks hblanks rest
    obtain ⟨more, rfl⟩ := hcs.head
    obtain ⟨members, hentries, hmembers⟩ := hcs
    have hskip : skipBlanks (blanks ++ ('\x7b' :: more ++ rest)) = '\x7b' :: (more ++ rest) :=
      skipBlanks_append hblanks (by decide)
    unfold dictionary
    split <;> rename_i heq
    · obtain ⟨-, rfl⟩ := List.cons.inj (hskip.symm.trans heq)
      exact (reads_members hmembers (steps_entries h hentries ∅) rest).widen _
    · exact absurd hskip (heq _)
  begins := by
    rintro _ cs ⟨entries, rfl, hcs⟩
    obtain ⟨more, rfl⟩ := hcs.head
    exact ⟨'\x7b', more, rfl, by simp⟩

/-- Dictionaries are read from nothing but their texts, if their values are. -/
theorem exact_dictionary (h : Exact read (SpellsVia make spells)) :
    Exact (dictionary read) (SpellsVia (ofEntries make) (SpellsDictionary spells)) := by
  intro s value rest hread
  obtain ⟨blanks, hblanks, heq⟩ := exists_blanks s
  unfold dictionary at hread
  split at hread
  · rename_i inner hskip
    obtain ⟨members, cs, hmembers, hsteps, hinner⟩ :=
      exists_members (takesMember_entry h) hread.of_widen
    obtain ⟨entries, hentries, rfl⟩ := exists_entries hsteps
    rw [hskip, hinner] at heq
    exact ⟨blanks, cs, hblanks, ⟨entries, rfl, members, hentries, hmembers⟩, heq⟩
  · exact absurd hread not_reads_error

end

end LogForwarding.Json
