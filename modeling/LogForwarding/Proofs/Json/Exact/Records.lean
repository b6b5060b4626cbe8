/-
# What is read as a record spells it

The other direction of the lemmas on records. Each member of an object sets the
field that it is for, if it is for one, and does so only once; each element of
an array sets the next field. So a draft has of every field the value that the
text has for it, or nothing, and what is finished from the draft is the record
that the text is for.

Key definitions: `Json.Takes`, `Json.Linked.SetsFields`.
Key theorems: `Json.Linked.get_of_steps`, `Json.Linked.exists_elements`,
`Json.Linked.exact_reader`.
-/
import LogForwarding.Proofs.Json.Exact.Shapes
import LogForwarding.Proofs.Json.Records

namespace LogForwarding.Json

variable {δ α : Type} {s rest : List Char}

/-- How a member of an object takes a draft on: it sets a field that was not set, or it is for none
of the fields. -/
inductive Takes (links : List (Link δ α)) : String → List Char → δ → δ → Prop where
  | known {l : Link δ α} {draft : δ} {value : l.Value} {text : List Char} (hl : l ∈ links)
      (hnew : l.get draft = none) (h : l.spells value text) :
      Takes links l.key text draft (l.put draft value)
  | unknown {key : String} {draft : δ} {text : List Char} (hkey : ∀ l ∈ links, key ≠ l.key)
      (h : ValueText text) : Takes links key text draft draft

namespace Linked

variable {r : Record δ α} {links : List (Link δ α)}

/-! ### Members of an object -/

theorem takesMember (h : Linked r links) : TakesMember r.member (Takes links) := by
  intro key draft next s rest hread
  unfold Record.member at hread
  split at hread
  · rename_i field hfind
    split at hread
    · exact absurd hread not_reads_error
    · rename_i hset
      have hfield : field ∈ r.fields := List.mem_of_find?_eq_some hfind
      rw [h.fields] at hfield
      obtain ⟨l, hl, rfl⟩ := List.mem_map.1 hfield
      obtain rfl : l.key = key := by simpa [Link.field, draftField] using List.find?_some hfind
      have hnew : l.get draft = none := by
        simpa [Link.field, draftField] using hset
      obtain ⟨between, mark, hbetween, rfl, hdrafted⟩ := exists_afterColon hread
      obtain ⟨value, hvalue, rfl⟩ := hdrafted.of_map
      obtain ⟨gap, text, hgap, htext, rfl⟩ := h.exact l hl hvalue
      exact ⟨between, gap, text, hbetween, hgap, .known hl hnew htext, rfl⟩
  · rename_i hfind
    have hkey : ∀ l ∈ links, key ≠ l.key := by
      intro l hl heq
      rw [heq, h.find?_key hl] at hfind
      cases hfind
    obtain ⟨_, hskip, rfl⟩ := hread.of_map
    obtain ⟨between, mark, hbetween, rfl, hvalue⟩ := exists_afterColon hskip
    obtain ⟨gap, text, hgap, htext, rfl⟩ := exists_valueText hvalue
    exact ⟨between, gap, text, hbetween, hgap, .unknown hkey htext, rfl⟩

/-- A field has the value of the one member that is for it, or what it had if there is none. -/
theorem get_of_steps (h : Linked r links) {draft final : δ}
    {members : List (String × List Char)} (hsteps : Steps (Takes links) draft members final)
    {l : Link δ α} (hl : l ∈ links) :
    (∃ text value, members.filter (·.1 == l.key) = [(l.key, text)] ∧ l.spells value text ∧
        l.get draft = none ∧ l.get final = some value) ∨
      (∀ m ∈ members, m.1 ≠ l.key) ∧ l.get final = l.get draft := by
  induction hsteps with
  | nil => exact .inr ⟨by simp, rfl⟩
  | @cons draft next final key text members htakes hsteps ih =>
    cases htakes with
    | @known first _ value _ hfirst hnew hspells =>
      by_cases hsame : l.key = first.key
      · obtain rfl := h.eq_of_key_eq hfirst hl hsame
        have hput : l.get (l.put draft value) = some value := h.get_put l hl draft value
        -- The member that comes first is the only one for its field: the field is set after it.
        obtain ⟨_, _, _, _, hnone, _⟩ | ⟨hothers, hget⟩ := ih
        · rw [hput] at hnone
          cases hnone
        · refine .inl ⟨text, value, ?_, hspells, hnew, hget.trans hput⟩
          rw [List.filter_cons_of_pos (by simp), List.filter_eq_nil_iff.2]
          exact fun m hm => by simpa using hothers m hm
      · have hput : l.get (first.put draft value) = l.get draft :=
          h.get_put_of_ne first hfirst l hl hsame draft value
        have hne : first.key ≠ l.key := Ne.symm hsame
        rw [hput] at ih
        rw [List.filter_cons_of_neg (by simpa using hne), List.forall_mem_cons]
        exact ih.imp_right fun ⟨hothers, hget⟩ => ⟨⟨hne, hothers⟩, hget⟩
    | unknown hkey =>
      have hne : key ≠ l.key := hkey l hl
      rw [List.filter_cons_of_neg (by simpa using hne), List.forall_mem_cons]
      exact ih.imp_right fun ⟨hothers, hget⟩ => ⟨⟨hne, hothers⟩, hget⟩

theorem valueText_of_steps {draft final : δ} {members : List (String × List Char)}
    (hsteps : Steps (Takes links) draft members final) :
    ∀ m ∈ members, (∀ l ∈ links, m.1 ≠ l.key) → ValueText m.2 := by
  induction hsteps with
  | nil => exact fun m hm => absurd hm List.not_mem_nil
  | cons htakes hsteps ih =>
    refine List.forall_mem_cons.2 ⟨fun hne => ?_, ih⟩
    cases htakes with
    | known hl => exact absurd rfl (hne _ hl)
    | unknown hkey htext => exact htext

theorem finish_of_complete {absent : Nat → String → Misfit} {draft : δ} {record : α}
    (h : r.complete absent draft = .ok record) : r.finish absent draft = .ok record := by
  unfold Record.complete at h
  cases hfinish : r.finish absent draft with
  | error cause =>
    rw [hfinish] at h
    cases h
  | ok value =>
    rw [hfinish] at h
    cases h
    rfl

/-- The text is one for what the draft has for the field. -/
def SpellsField (draft : δ) (l : Link δ α) (cs : List Char) : Prop :=
  ∃ value, l.get draft = some value ∧ l.spells value cs

/-- A draft that is finished has set no field to anything but the value that the record has. -/
theorem spells_of_finish (h : Linked r links) {record : α} {final : δ}
    {absent : Nat → String → Misfit} (hfinish : r.finish absent final = .ok record)
    {l : Link δ α} (hl : l ∈ links) {cs : List Char} (hcs : SpellsField final l cs) :
    l.spells (l.value record) cs := by
  obtain ⟨held, hget, hcs⟩ := hcs
  obtain hvalue | ⟨hnone, -⟩ := (h.finish_iff record final absent).1 hfinish l hl
  · rw [hget, Option.some.injEq] at hvalue
    rwa [hvalue] at hcs
  · rw [hget] at hnone
    cases hnone

/-- A draft that is finished lacks no field that may not be left out. -/
theorem omissible_of_finish (h : Linked r links) {record : α} {final : δ}
    {absent : Nat → String → Misfit} (hfinish : r.finish absent final = .ok record)
    {l : Link δ α} (hl : l ∈ links) (hnone : l.get final = none) : l.omissible record := by
  obtain hvalue | ⟨-, homissible⟩ := (h.finish_iff record final absent).1 hfinish l hl
  · rw [hnone] at hvalue
    cases hvalue
  · exact homissible

/-- What a draft is finished from has been read from an object that spells the record. -/
theorem exists_object (h : Linked r links) {record : α} (hread : Reads (r.ofObject s) record rest) :
    ∃ cs, SpellsRecord (links.map Link.texts) record cs ∧ '\x7b' :: s = cs ++ rest := by
  unfold Record.ofObject at hread
  split at hread
  · exact absurd hread not_reads_error
  · rename_i draft hdraft
    cases hcomplete : r.complete (fun _ key => .missingField key) draft.value with
    | error fault =>
      rw [hcomplete] at hread
      exact absurd hread not_reads_error
    | ok value =>
      rw [hcomplete] at hread
      obtain ⟨rfl, hrest⟩ : value = record ∧ draft.rest = rest := reads_ok_iff.1 hread
      obtain ⟨ms, cs, hcs, hsteps, heq⟩ := exists_members h.takesMember (.of_eq hdraft hrest)
      have hfinish := finish_of_complete hcomplete
      refine ⟨cs, .object ?_ ?_ hcs, heq⟩
      · intro f hf
        obtain ⟨l, hl, rfl⟩ := List.mem_map.1 hf
        obtain ⟨text, held, hfilter, hspells, -, hget⟩ | ⟨hothers, hget⟩ := h.get_of_steps hsteps hl
        · exact .inl ⟨text, hfilter, h.spells_of_finish hfinish hl ⟨held, hget, hspells⟩⟩
        · have hnone : l.get draft.value = none := hget.trans (h.get_blank l hl)
          exact .inr ⟨hothers, h.omissible_of_finish hfinish hl hnone⟩
      · intro m hm hne
        exact valueText_of_steps hsteps m hm fun l hl => hne l.texts (List.mem_map_of_mem hl)

/-! ### Elements of an array -/

theorem elements_cases {isFirst : Bool} {field : RecordField δ} {fields : List (RecordField δ)}
    {draft final : δ}
    (h : GivesDraft (Record.elements draft isFirst (field :: fields) s) final rest) :
    (skipBlanks s = ']' :: rest ∧ final = draft) ∨
      ∃ t next tail, (isFirst = true ∧ t = s ∨ isFirst = false ∧ skipBlanks s = ',' :: t) ∧
        Reads (field.read draft t) next tail ∧
        GivesDraft (Record.elements next false fields tail) final rest := by
  obtain ⟨left, h, hclose⟩ := h
  unfold Record.elements at h
  split at h
  · cases h
  · cases h
    exact .inl ⟨hclose, rfl⟩
  · rename_i c more hopen hskip
    dsimp only at h
    split at h
    · cases h
    · rename_i t hstart
      split at h
      · cases h
      · rename_i value hvalue
        refine .inr ⟨t.1, value.value, value.rest, ?_, .of_eq hvalue rfl, ?_⟩
        · split at hstart
          · rename_i hfirst
            cases hstart
            exact .inl ⟨hfirst, rfl⟩
          · rename_i hnext
            split at hstart
            · rename_i hcomma
              cases hstart
              exact .inr ⟨by simpa using hnext, hcomma ▸ hskip⟩
            · cases hstart
        · cases hmore : Record.elements value.value false fields value.rest with
          | error fault =>
            rw [hmore] at h
            cases h
          | ok result =>
            rw [hmore] at h
            cases h
            exact ⟨result.2, rfl, hclose⟩

/-- The parts have set the first of the fields that were to come, one each, and every other field
is as it was. -/
def SetsFields (links todo : List (Link δ α)) (draft final : δ) (parts : List (List Char)) : Prop :=
  ∃ given omitted, todo = given ++ omitted ∧
    List.Forall₂ (fun l => Padded (SpellsField final l)) given parts ∧
    ∀ l ∈ links, l ∉ given → l.get final = l.get draft

theorem setsFields_nil (links todo : List (Link δ α)) (draft : δ) :
    SetsFields links todo draft draft [] :=
  ⟨[], todo, rfl, .nil, fun _ _ _ => rfl⟩

/-- A field that comes once keeps the value that it was set to. -/
theorem setsFields_cons (h : Linked r links) {l : Link δ α} {todo : List (Link δ α)}
    (hl : l ∈ links) (hfresh : l.key ∉ todo.map Link.key) {draft final : δ} {value : l.Value}
    {before core after : List Char} {parts : List (List Char)} (hbefore : Blanks before)
    (hcore : l.spells value core) (hafter : Blanks after)
    (hparts : SetsFields links todo (l.put draft value) final parts) :
    SetsFields links (l :: todo) draft final ((before ++ core ++ after) :: parts) := by
  obtain ⟨given, omitted, rfl, hparts, hothers⟩ := hparts
  have hnot : l ∉ given := by
    intro hmem
    exact hfresh (List.mem_map_of_mem (List.mem_append_left omitted hmem))
  have hget : l.get final = some value :=
    (hothers l hl hnot).trans (h.get_put l hl draft value)
  refine ⟨l :: given, omitted, rfl,
    .cons ⟨before, core, after, hbefore, ⟨value, hget, hcore⟩, hafter, rfl⟩ hparts, ?_⟩
  intro l' hl' hmem
  rw [List.mem_cons, not_or] at hmem
  obtain ⟨hne, hmem⟩ := hmem
  have hkey : l'.key ≠ l.key := fun heq => hne (h.eq_of_key_eq hl hl' heq)
  exact (hothers l' hl' hmem).trans (h.get_put_of_ne l hl l' hl' hkey draft value)

/-- After an element a comma stands before each further one. -/
theorem exists_elements (h : Linked r links) {todo : List (Link δ α)} (htodo : todo ⊆ links)
    (hnodup : (todo.map Link.key).Nodup) {draft final : δ}
    (hgives : GivesDraft (Record.elements draft false (todo.map Link.field) s) final rest) :
    ∃ after parts, Blanks after ∧ SetsFields links todo draft final parts ∧
      s = after ++ (parts.flatMap (',' :: ·) ++ ']' :: rest) := by
  -- The array can end before any of the fields, and then the draft is done.
  have hend : ∀ {s : List Char} (todo : List (Link δ α)) (draft : δ),
      skipBlanks s = ']' :: rest → ∃ after parts, Blanks after ∧
        SetsFields links todo draft draft parts ∧
        s = after ++ (parts.flatMap (',' :: ·) ++ ']' :: rest) := by
    intro s todo draft hclose
    obtain ⟨after, hafter, heq⟩ := exists_blanks s
    exact ⟨after, [], hafter, setsFields_nil links todo draft, hclose ▸ heq⟩
  induction todo generalizing s draft with
  | nil =>
    obtain ⟨left, hleft, hclose⟩ := hgives
    cases hleft
    exact hend [] _ hclose
  | cons l todo ih =>
    obtain ⟨hclose, rfl⟩ | ⟨t, next, tail, hstart, hread, hmore⟩ := elements_cases hgives
    · exact hend (l :: todo) _ hclose
    · obtain ⟨hl, htodo⟩ := List.cons_subset.1 htodo
      rw [List.map_cons, List.nodup_cons] at hnodup
      obtain ⟨hfresh, hnodup⟩ := hnodup
      have hcomma : skipBlanks s = ',' :: t := by
        obtain ⟨hfirst, -⟩ | ⟨-, hcomma⟩ := hstart
        · cases hfirst
        · exact hcomma
      obtain ⟨value, hvalue, rfl⟩ := hread.of_map
      obtain ⟨before, core, hbefore, hcore, rfl⟩ := h.exact l hl hvalue
      obtain ⟨after, parts, hafter, hparts, rfl⟩ := ih htodo hnodup hmore
      obtain ⟨blanks, hblanks, heq⟩ := exists_blanks s
      refine ⟨blanks, _, hblanks, h.setsFields_cons hl hfresh hbefore hcore hafter hparts, ?_⟩
      rw [heq, hcomma]
      simp

/-- Before the first element there is no comma. -/
theorem exists_fields (h : Linked r links) {final : δ}
    (hgives : GivesDraft (Record.elements r.blank true r.fields s) final rest) :
    ∃ cs parts, SetsFields links links r.blank final parts ∧ Bracketed '[' ']' parts cs ∧
      '[' :: s = cs ++ rest := by
  have hempty : skipBlanks s = ']' :: rest → final = r.blank →
      ∃ cs parts, SetsFields links links r.blank final parts ∧ Bracketed '[' ']' parts cs ∧
        '[' :: s = cs ++ rest := by
    rintro hclose rfl
    obtain ⟨cs, hcs, heq⟩ := exists_bracketed_nil hclose
    exact ⟨cs, [], setsFields_nil links links r.blank, hcs, heq⟩
  rw [h.fields] at hgives
  cases links with
  | nil =>
    obtain ⟨left, hleft, hclose⟩ := hgives
    cases hleft
    exact hempty hclose rfl
  | cons l todo =>
    obtain ⟨hclose, hfinal⟩ | ⟨t, next, tail, hstart, hread, hmore⟩ := elements_cases hgives
    · exact hempty hclose hfinal
    · have hl : l ∈ l :: todo := List.mem_cons_self
      have hnodup := h.nodup
      rw [List.map_cons, List.nodup_cons] at hnodup
      obtain ⟨hfresh, hnodup⟩ := hnodup
      have ht : t = s := by
        obtain ⟨-, ht⟩ | ⟨hfirst, -⟩ := hstart
        · exact ht
        · cases hfirst
      obtain ⟨value, hvalue, rfl⟩ := hread.of_map
      obtain ⟨before, core, hbefore, hcore, heq⟩ := h.exact l hl hvalue
      obtain ⟨after, parts, hafter, hparts, rfl⟩ :=
        h.exists_elements (List.subset_cons_self l todo) hnodup hmore
      refine ⟨_, _, h.setsFields_cons hl hfresh hbefore hcore hafter hparts, .some, ?_⟩
      rw [← ht, heq]
      simp

/-- What a draft is finished from has been read from an array that spells the record. -/
theorem exists_array (h : Linked r links) {record : α} (hread : Reads (r.ofArray s) record rest) :
    ∃ cs, SpellsRecord (links.map Link.texts) record cs ∧ '[' :: s = cs ++ rest := by
  unfold Record.ofArray at hread
  split at hread
  · exact absurd hread not_reads_error
  · rename_i final left helements
    split at hread
    · exact absurd hread not_reads_error
    · rename_i value hcomplete
      split at hread
      · exact absurd hread not_reads_error
      · rename_i hclose
        obtain ⟨rfl, rfl⟩ := reads_ok_iff.1 hread
        have hfinish := finish_of_complete hcomplete
        obtain ⟨cs, parts, ⟨given, omitted, hlinks, hparts, hothers⟩, hcs, heq⟩ :=
          h.exists_fields ⟨left, helements, hclose⟩
        have hgiven : ∀ l ∈ given, l ∈ links := by
          intro l hl
          rw [hlinks]
          exact List.mem_append_left omitted hl
        have hspells : List.Forall₂ (fun l => Padded (l.spells (l.value value))) given parts := by
          refine ((List.forall₂_and_left given parts).2 ⟨hgiven, hparts⟩).imp ?_
          rintro l part ⟨hl, before, core, after, hbefore, hcore, hafter, hpart⟩
          exact ⟨before, core, after, hbefore, h.spells_of_finish hfinish hl hcore, hafter, hpart⟩
        have homitted : ∀ l ∈ omitted, l.omissible value := by
          intro l hl
          have hmem : l ∈ links := hlinks ▸ List.mem_append_right given hl
          have hnot : l ∉ given := by
            have hnodup : (given ++ omitted).Nodup := hlinks ▸ h.nodup.of_map
            exact fun hgiven => (List.disjoint_of_nodup_append hnodup) hgiven hl
          exact h.omissible_of_finish hfinish hmem
            ((hothers l hmem hnot).trans (h.get_blank l hmem))
        have htexts : links.map Link.texts = given.map Link.texts ++ omitted.map Link.texts := by
          rw [hlinks, List.map_append]
        refine ⟨cs, .array htexts ?_ ⟨parts, List.forall₂_map_left_iff.2 hspells, hcs⟩, heq⟩
        intro f hf
        obtain ⟨l, hl, rfl⟩ := List.mem_map.1 hf
        exact homitted l hl
      · exact absurd hread not_reads_error

/-- **A record is read from nothing but the texts that spell it**, if its fields are linked. -/
theorem exact_reader (h : Linked r links) :
    Exact r.reader (SpellsRecord (links.map Link.texts)) := by
  intro s record rest hread
  obtain ⟨blanks, hblanks, heq⟩ := exists_blanks s
  have hcore : ∃ cs, SpellsRecord (links.map Link.texts) record cs ∧ skipBlanks s = cs ++ rest := by
    unfold Record.reader at hread
    split at hread
    · rename_i hskip
      rw [hskip]
      exact h.exists_array hread.of_widen
    · rename_i hskip
      rw [hskip]
      exact h.exists_object hread.of_widen
    · exact absurd hread not_reads_error
  obtain ⟨cs, hcs, hskip⟩ := hcore
  rw [hskip] at heq
  exact ⟨blanks, cs, hblanks, hcs, heq⟩

end Linked

end LogForwarding.Json
