/-
# Records are read as they are spelled

A record is drafted field by field. How a field is drafted and how it is
spelled is said by a link, and a record whose fields are linked is read from
every text for it: from an object in whatever order its members stand, since
each member sets its own field and leaves the others alone, and from an array
as far as it goes.

Key definitions: `Json.Link`, `Json.Linked`.
Key theorems: `Json.Linked.exists_steps`, `Json.Linked.gives_elements`,
`Json.Linked.accepts_reader`.
-/
import LogForwarding.Proofs.Json.Shapes
import LogForwarding.Topology.Json
import Mathlib.Data.List.Nodup

namespace LogForwarding.Json

/-- A field of a record of type `α` that is drafted as a `δ`, as it is read and as it is spelled. -/
structure Link (δ α : Type) where
  /-- What the field holds. -/
  Value : Type
  key : String
  /-- What the draft has for the field. -/
  get : δ → Option Value
  put : δ → Value → δ
  read : Reader Value
  /-- What the record has for the field. -/
  value : α → Value
  spells : Value → List Char → Prop
  omissible : α → Prop

variable {δ α : Type}

/-- The field as it is read. -/
def Link.field (l : Link δ α) : RecordField δ := draftField l.key l.get l.put l.read

/-- The field as it is spelled. -/
def Link.texts (l : Link δ α) : FieldTexts α := ⟨l.key, fun a => l.spells (l.value a), l.omissible⟩

/-- The fields of the record are linked: each is drafted for itself and read as it is spelled, and
a draft is finished to be the record if it has the fields of the record, of which only those are
missing that may be left out. -/
structure Linked (r : Record δ α) (links : List (Link δ α)) : Prop where
  fields : r.fields = links.map Link.field
  nodup : (links.map Link.key).Nodup
  accepts : ∀ l ∈ links, Accepts l.read l.spells
  exact : ∀ l ∈ links, Exact l.read l.spells
  get_blank : ∀ l ∈ links, l.get r.blank = none
  get_put : ∀ l ∈ links, ∀ draft value, l.get (l.put draft value) = some value
  get_put_of_ne : ∀ l ∈ links, ∀ l' ∈ links, l'.key ≠ l.key →
    ∀ draft value, l'.get (l.put draft value) = l'.get draft
  finish_iff : ∀ record draft absent, r.finish absent draft = .ok record ↔
    ∀ l ∈ links, l.get draft = some (l.value record) ∨ l.get draft = none ∧ l.omissible record

namespace Linked

variable {r : Record δ α} {links : List (Link δ α)}

theorem eq_of_key_eq (h : Linked r links) {l l' : Link δ α} (hl : l ∈ links) (hl' : l' ∈ links)
    (hkey : l'.key = l.key) : l' = l :=
  List.inj_on_of_nodup_map h.nodup hl' hl hkey

/-! ### Members of an object -/

theorem find?_key (h : Linked r links) {l : Link δ α} (hl : l ∈ links) :
    r.fields.find? (·.key == l.key) = some l.field := by
  have hfind : links.find? (·.key == l.key) = some l := by
    cases hfind : links.find? (·.key == l.key) with
    | none => exact absurd (beq_self_eq_true l.key) (List.find?_eq_none.1 hfind l hl)
    | some l' =>
      have hkey : l'.key = l.key := by simpa using List.find?_some hfind
      rw [h.eq_of_key_eq hl (List.mem_of_find?_eq_some hfind) hkey]
  rw [h.fields, List.find?_map]
  show (links.find? (·.key == l.key)).map Link.field = some l.field
  rw [hfind]
  rfl

theorem find?_unknown (h : Linked r links) {key : String} (hkey : ∀ l ∈ links, key ≠ l.key) :
    r.fields.find? (·.key == key) = none := by
  rw [h.fields, List.find?_eq_none]
  intro field hfield
  obtain ⟨l, hl, rfl⟩ := List.mem_map.1 hfield
  have hne : key ≠ l.key := hkey l hl
  simpa [Link.field, draftField] using hne.symm

theorem readsMember_known (h : Linked r links) {l : Link δ α} (hl : l ∈ links) {draft : δ}
    {value : l.Value} {text : List Char} (hnew : l.get draft = none) (htext : l.spells value text) :
    ReadsMember r.member l.key text draft (l.put draft value) := by
  intro between gap rest hbetween hgap _
  unfold Record.member
  rw [h.find?_key hl]
  have hset : l.field.isSet draft = false := by
    show (l.get draft).isSome = false
    rw [hnew]
    rfl
  dsimp only
  rw [if_neg (by simp [hset])]
  refine reads_afterColon hbetween ?_
  exact ((h.accepts l hl).reads htext hgap rest).map (l.put draft)

theorem readsMember_unknown (h : Linked r links) {key : String} (hkey : ∀ l ∈ links, key ≠ l.key)
    {draft : δ} {text : List Char} (htext : ValueText text) :
    ReadsMember r.member key text draft draft := by
  intro between gap rest hbetween hgap hstops
  unfold Record.member
  rw [h.find?_unknown hkey]
  have hskip : Reads (skipValue (gap ++ (text ++ rest))) () rest :=
    skipped_value htext hgap hstops
  have hread : Reads (afterColon skipValue (between ++ ':' :: (gap ++ (text ++ rest)))) () rest :=
    reads_afterColon hbetween hskip
  exact hread.map fun _ => draft

/-- Whatever the order of the members, they set the fields that they are for, and no others. -/
theorem exists_steps (h : Linked r links) {record : α} {members : List (String × List Char)}
    {draft : δ}
    (hknown : ∀ l ∈ links,
      (∃ text, members.filter (·.1 == l.key) = [(l.key, text)] ∧
        l.spells (l.value record) text ∧ l.get draft = none) ∨ ∀ m ∈ members, m.1 ≠ l.key)
    (hunknown : ∀ m ∈ members, (∀ l ∈ links, m.1 ≠ l.key) → ValueText m.2) :
    ∃ final, Steps (ReadsMember r.member) draft members final ∧ ∀ l ∈ links,
      l.get final = some (l.value record) ∨
        (∀ m ∈ members, m.1 ≠ l.key) ∧ l.get final = l.get draft := by
  induction members generalizing draft with
  | nil => exact ⟨draft, .nil, fun l _ => .inr ⟨by simp, rfl⟩⟩
  | cons m members ih =>
    obtain ⟨key, text⟩ := m
    obtain ⟨htext, hothers⟩ := List.forall_mem_cons.1 hunknown
    by_cases hkey : ∃ l ∈ links, key = l.key
    · obtain ⟨l, hl, rfl⟩ := hkey
      obtain ⟨text', hfilter, hspells, hnew⟩ | hnot := hknown l hl
      · rw [List.filter_cons_of_pos (by simp), List.cons.injEq, Prod.mk.injEq] at hfilter
        obtain ⟨⟨-, rfl⟩, hfilter⟩ := hfilter
        have hlast : ∀ m ∈ members, m.1 ≠ l.key := by
          intro m hm heq
          exact List.filter_eq_nil_iff.1 hfilter m hm (beq_iff_eq.2 heq)
        have hrest : ∀ l' ∈ links,
            (∃ text, members.filter (·.1 == l'.key) = [(l'.key, text)] ∧
              l'.spells (l'.value record) text ∧
              l'.get (l.put draft (l.value record)) = none) ∨ ∀ m ∈ members, m.1 ≠ l'.key := by
          intro l' hl'
          by_cases hsame : l'.key = l.key
          · exact .inr (hsame ▸ hlast)
          · refine (hknown l' hl').imp (fun hgiven => ?_) fun hother =>
              (List.forall_mem_cons.1 hother).2
            rw [List.filter_cons_of_neg (by simpa using Ne.symm hsame)] at hgiven
            rwa [h.get_put_of_ne l hl l' hl' hsame]
        obtain ⟨final, hsteps, hfinal⟩ := ih hrest hothers
        refine ⟨final, .cons (h.readsMember_known hl hnew hspells) hsteps, fun l' hl' => ?_⟩
        by_cases hsame : l'.key = l.key
        · obtain rfl := h.eq_of_key_eq hl hl' hsame
          refine .inl ((hfinal l' hl').elim id fun hother => ?_)
          rw [hother.2, h.get_put l' hl']
        · refine (hfinal l' hl').imp_right fun ⟨hother, hget⟩ => ?_
          refine ⟨List.forall_mem_cons.2 ⟨Ne.symm hsame, hother⟩, ?_⟩
          rw [hget, h.get_put_of_ne l hl l' hl' hsame]
      · exact absurd rfl (hnot _ List.mem_cons_self)
    · have hkey : ∀ l ∈ links, key ≠ l.key := fun l hl heq => hkey ⟨l, hl, heq⟩
      have hrest : ∀ l ∈ links,
          (∃ text, members.filter (·.1 == l.key) = [(l.key, text)] ∧
            l.spells (l.value record) text ∧ l.get draft = none) ∨ ∀ m ∈ members, m.1 ≠ l.key := by
        intro l hl
        have hne : (key == l.key) = false := by simpa using hkey l hl
        refine (hknown l hl).imp (fun hgiven => ?_) fun hother => (List.forall_mem_cons.1 hother).2
        rwa [List.filter_cons_of_neg (by simp [hne])] at hgiven
      obtain ⟨final, hsteps, hfinal⟩ := ih hrest hothers
      refine ⟨final, .cons (h.readsMember_unknown hkey (htext hkey)) hsteps, fun l hl => ?_⟩
      exact (hfinal l hl).imp_right fun ⟨hother, hget⟩ =>
        ⟨List.forall_mem_cons.2 ⟨hkey l hl, hother⟩, hget⟩

/-- A record is read from an object that spells it. -/
theorem reads_object (h : Linked r links) {record : α} {members : List (String × List Char)}
    {cs : List Char}
    (hknown : ∀ f ∈ links.map Link.texts,
      (∃ text, members.filter (·.1 == f.key) = [(f.key, text)] ∧ f.spells record text) ∨
        ((∀ m ∈ members, m.1 ≠ f.key) ∧ f.omissible record))
    (hunknown : ∀ m ∈ members, (∀ f ∈ links.map Link.texts, m.1 ≠ f.key) → ValueText m.2)
    (hcs : SpellsObject members ('\x7b' :: cs)) (rest : List Char) :
    Reads (r.ofObject (cs ++ rest)) record rest := by
  have hblank : ∀ l ∈ links,
      (∃ text, members.filter (·.1 == l.key) = [(l.key, text)] ∧
        l.spells (l.value record) text ∧ l.get r.blank = none) ∨ ∀ m ∈ members, m.1 ≠ l.key := by
    intro l hl
    obtain ⟨text, hfilter, hspells⟩ | ⟨hother, -⟩ := hknown l.texts (List.mem_map_of_mem hl)
    · exact .inl ⟨text, hfilter, hspells, h.get_blank l hl⟩
    · exact .inr hother
  have hothers : ∀ m ∈ members, (∀ l ∈ links, m.1 ≠ l.key) → ValueText m.2 := by
    intro m hm hne
    refine hunknown m hm fun f hf => ?_
    obtain ⟨l, hl, rfl⟩ := List.mem_map.1 hf
    exact hne l hl
  obtain ⟨final, hsteps, hfinal⟩ := h.exists_steps hblank hothers
  have hfinish : ∀ absent, r.finish absent final = .ok record := by
    intro absent
    refine (h.finish_iff record final absent).2 fun l hl => ?_
    obtain hget | ⟨hother, hget⟩ := hfinal l hl
    · exact .inl hget
    · refine .inr ⟨hget.trans (h.get_blank l hl), ?_⟩
      obtain ⟨text, hfilter, -⟩ | ⟨-, homissible⟩ := hknown l.texts (List.mem_map_of_mem hl)
      · have hmem : (l.key, text) ∈ members.filter (·.1 == l.key) := by
          show (l.key, text) ∈ members.filter (·.1 == l.texts.key)
          rw [hfilter]
          exact List.mem_cons_self
        exact absurd rfl (hother _ (List.mem_filter.1 hmem).1)
      · exact homissible
  obtain ⟨hlt, hmembers⟩ := reads_members hcs hsteps rest
  unfold Record.ofObject
  rw [hmembers]
  dsimp only
  rw [Record.complete, hfinish]
  exact ⟨hlt, rfl⟩

/-! ### Elements of an array -/

/-- The fields were taken up into the draft, and the array ends there. -/
def GivesDraft {s : List Char} (outcome : Except ReadFault (δ × Left s)) (draft : δ)
    (rest : List Char) : Prop :=
  ∃ left, outcome = .ok (draft, left) ∧ skipBlanks left.1 = ']' :: rest

theorem gives_end {s rest : List Char} (hclose : skipBlanks s = ']' :: rest) (draft : δ)
    (isFirst : Bool) (fields : List (RecordField δ)) :
    GivesDraft (Record.elements draft isFirst fields s) draft rest := by
  cases fields with
  | nil => exact ⟨Left.all s, rfl, hclose⟩
  | cons field fields =>
    unfold Record.elements
    split <;> rename_i heq
    · exact absurd (hclose.symm.trans heq) (by simp)
    · exact ⟨_, rfl, hclose⟩
    · exact absurd hclose (by simp_all)

/-- Where the array does not end there is a field, after a comma unless it is the first one. -/
theorem gives_field {isFirst : Bool} {field : RecordField δ} {fields : List (RecordField δ)}
    {draft next final : δ} {s t tail rest : List Char} {c : Char} {more : List Char}
    (hskip : skipBlanks s = c :: more) (hopen : c ≠ ']')
    (hstart : isFirst = true ∧ t = s ∨ isFirst = false ∧ c = ',' ∧ t = more)
    (hread : Reads (field.read draft t) next tail)
    (hmore : GivesDraft (Record.elements next false fields tail) final rest) :
    GivesDraft (Record.elements draft isFirst (field :: fields) s) final rest := by
  obtain ⟨hlt, hread⟩ := hread
  obtain ⟨left, hmore, hclose⟩ := hmore
  unfold Record.elements
  split <;> rename_i heq
  · exact absurd (hskip.symm.trans heq) (by simp)
  · exact absurd (List.cons.inj (hskip.symm.trans heq)).1 hopen
  · obtain ⟨rfl, rfl⟩ := List.cons.inj (hskip.symm.trans heq)
    dsimp only
    obtain ⟨rfl, rfl⟩ | ⟨rfl, rfl, rfl⟩ := hstart
    · rw [if_pos rfl]
      dsimp only [Left.all]
      rw [hread]
      dsimp only
      rw [hmore]
      exact ⟨_, rfl, hclose⟩
    · rw [if_neg (by decide), if_pos rfl]
      dsimp only
      rw [hread]
      dsimp only
      rw [hmore]
      exact ⟨_, rfl, hclose⟩

/-- The draft with the fields that an array gives. -/
def fill (record : α) (given : List (Link δ α)) (draft : δ) : δ :=
  given.foldl (fun draft l => l.put draft (l.value record)) draft

theorem gives_elements {given : List (Link δ α)} {record : α} {parts : List (List Char)}
    (haccepts : ∀ l ∈ given, Accepts l.read l.spells)
    (hparts : List.Forall₂ (fun l => Padded (l.spells (l.value record))) given parts)
    {draft : δ} {after : List Char} (hafter : Blanks after) (omitted : List (RecordField δ))
    (rest : List Char) :
    GivesDraft (Record.elements draft false (given.map Link.field ++ omitted)
      (after ++ (parts.flatMap (',' :: ·) ++ ']' :: rest))) (fill record given draft) rest := by
  induction hparts generalizing draft after with
  | nil => exact gives_end (skipBlanks_append hafter (by decide)) draft false omitted
  | @cons l part given parts hpart hparts ih =>
    obtain ⟨haccept, haccepts⟩ := List.forall_mem_cons.1 haccepts
    obtain ⟨before, core, after', hbefore, hcore, hafter', rfl⟩ := hpart
    have htail : ((before ++ core ++ after') :: parts).flatMap (',' :: ·) ++ ']' :: rest =
        ',' :: (before ++ (core ++ (after' ++ (parts.flatMap (',' :: ·) ++ ']' :: rest)))) := by
      simp
    rw [htail]
    have hread := (haccept.reads hcore hbefore
      (after' ++ (parts.flatMap (',' :: ·) ++ ']' :: rest))).map (l.put draft)
    exact gives_field (skipBlanks_append hafter (by decide)) (by decide)
      (.inr ⟨rfl, rfl, rfl⟩) hread (ih haccepts hafter')

theorem get_fill (h : Linked r links) {given : List (Link δ α)} (hgiven : given ⊆ links)
    (record : α) (draft : δ) {l : Link δ α} (hl : l ∈ links) :
    l.get (fill record given draft) = some (l.value record) ∨
      l ∉ given ∧ l.get (fill record given draft) = l.get draft := by
  induction given generalizing draft with
  | nil => exact .inr ⟨List.not_mem_nil, rfl⟩
  | cons first given ih =>
    obtain ⟨hfirst, hgiven⟩ := List.cons_subset.1 hgiven
    obtain hget | ⟨hnot, hget⟩ := ih hgiven (first.put draft (first.value record))
    · exact .inl hget
    · by_cases hsame : l.key = first.key
      · obtain rfl := h.eq_of_key_eq hfirst hl hsame
        exact .inl (hget.trans (h.get_put l hl draft _))
      · refine .inr ⟨?_, hget.trans (h.get_put_of_ne first hfirst l hl hsame draft _)⟩
        intro hmem
        obtain rfl | hmem := List.mem_cons.1 hmem
        · exact hsame rfl
        · exact hnot hmem

/-- A record is read from an array that spells it. -/
theorem reads_array (h : Linked r links) {record : α} {given omitted : List (Link δ α)}
    {cs : List Char} (hlinks : links = given ++ omitted)
    (homitted : ∀ l ∈ omitted, l.omissible record)
    (hcs : SpellsArray (fun l : Link δ α => l.spells (l.value record)) given ('[' :: cs))
    (rest : List Char) : Reads (r.ofArray (cs ++ rest)) record rest := by
  have hgiven : given ⊆ links := hlinks ▸ List.subset_append_left given omitted
  have haccepts : ∀ l ∈ given, Accepts l.read l.spells := fun l hl => h.accepts l (hgiven hl)
  have hfields : r.fields = given.map Link.field ++ omitted.map Link.field := by
    rw [h.fields, hlinks, List.map_append]
  have hfinish : ∀ absent, r.finish absent (fill record given r.blank) = .ok record := by
    intro absent
    refine (h.finish_iff record _ absent).2 fun l hl => ?_
    obtain hget | ⟨hnot, hget⟩ := h.get_fill hgiven record r.blank hl
    · exact .inl hget
    · have hmem : l ∈ given ++ omitted := hlinks ▸ hl
      have homit : l ∈ omitted := (List.mem_append.1 hmem).resolve_left hnot
      exact .inr ⟨hget.trans (h.get_blank l hl), homitted l homit⟩
  have hdraft : GivesDraft (Record.elements r.blank true r.fields (cs ++ rest))
      (fill record given r.blank) rest := by
    obtain ⟨parts, hparts, hcs⟩ := hcs
    rw [hfields]
    generalize htext : '[' :: cs = text at hcs
    cases hcs with
    | none hinner =>
      obtain ⟨-, rfl⟩ := List.cons.inj htext
      cases hparts
      rw [List.append_assoc]
      exact gives_end (skipBlanks_append hinner (by decide)) r.blank true _
    | @some part parts =>
      obtain ⟨-, rfl⟩ := List.cons.inj htext
      cases hparts with
      | @cons l _ given _ hpart hparts =>
        obtain ⟨haccept, haccepts⟩ := List.forall_mem_cons.1 haccepts
        obtain ⟨before, core, after, hbefore, hcore, hafter, rfl⟩ := hpart
        have happend : before ++ core ++ after ++ parts.flatMap (',' :: ·) ++ [']'] ++ rest =
            before ++ (core ++ (after ++ (parts.flatMap (',' :: ·) ++ ']' :: rest))) := by
          simp
        rw [happend]
        have hread := (haccept.reads hcore hbefore
          (after ++ (parts.flatMap (',' :: ·) ++ ']' :: rest))).map (l.put r.blank)
        obtain ⟨c, more, rfl, hc⟩ := haccept.begins hcore
        have hskip : skipBlanks (before ++ (c :: more ++ (after ++
            (parts.flatMap (',' :: ·) ++ ']' :: rest)))) = c :: (more ++ (after ++
            (parts.flatMap (',' :: ·) ++ ']' :: rest))) :=
          skipBlanks_append hbefore (isBlank_of_begins hc)
        have hopen : c ≠ ']' := by
          rintro rfl
          exact absurd hc (by decide)
        exact gives_field hskip hopen (.inl ⟨rfl, rfl⟩) hread
          (gives_elements haccepts hparts hafter _ rest)
  obtain ⟨left, hleft, hclose⟩ := hdraft
  unfold Record.ofArray
  rw [hleft]
  dsimp only
  rw [Record.complete, hfinish]
  dsimp only [Except.mapError]
  split <;> rename_i heq
  · exact absurd (hclose.symm.trans heq) (by simp)
  · obtain ⟨-, rfl⟩ := List.cons.inj (hclose.symm.trans heq)
    exact ⟨_, rfl⟩
  · exact absurd hclose (by simp_all)

/-- **A record is read from every text that spells it**, if its fields are linked. -/
theorem accepts_reader (h : Linked r links) :
    Accepts r.reader (SpellsRecord (links.map Link.texts)) where
  reads := by
    intro record cs hspells blanks hblanks rest
    unfold Record.reader
    cases hspells with
    | object hknown hunknown hcs =>
      obtain ⟨more, rfl⟩ : ∃ more, cs = '\x7b' :: more := by
        obtain ⟨parts, -, hcs⟩ := hcs
        exact hcs.head
      have hskip : skipBlanks (blanks ++ ('\x7b' :: more ++ rest)) = '\x7b' :: (more ++ rest) :=
        skipBlanks_append hblanks (by decide)
      split <;> rename_i heq
      · exact absurd (hskip.symm.trans heq) (by simp)
      · obtain ⟨-, rfl⟩ := List.cons.inj (hskip.symm.trans heq)
        exact (h.reads_object hknown hunknown hcs rest).widen _
      · exact absurd hskip (by simp_all)
    | @array given omitted _ hfields homitted hcs =>
      obtain ⟨given, omitted, hlinks, rfl, rfl⟩ := List.map_eq_append_iff.1 hfields
      obtain ⟨parts, hparts, hcs⟩ := hcs
      rw [List.forall₂_map_left_iff] at hparts
      obtain ⟨more, rfl⟩ := hcs.head
      have homitted : ∀ l ∈ omitted, l.omissible record :=
        fun l hl => homitted l.texts (List.mem_map_of_mem hl)
      have hskip : skipBlanks (blanks ++ ('[' :: more ++ rest)) = '[' :: (more ++ rest) :=
        skipBlanks_append hblanks (by decide)
      split <;> rename_i heq
      · obtain ⟨-, rfl⟩ := List.cons.inj (hskip.symm.trans heq)
        exact (h.reads_array hlinks homitted ⟨parts, hparts, hcs⟩ rest).widen _
      · exact absurd (hskip.symm.trans heq) (by simp)
      · exact absurd hskip (by simp_all)
  begins := by
    intro record cs hspells
    cases hspells with
    | object _ _ hcs =>
      obtain ⟨parts, -, hcs⟩ := hcs
      obtain ⟨more, rfl⟩ := hcs.head
      exact ⟨'\x7b', more, rfl, by simp⟩
    | array _ _ hcs =>
      obtain ⟨parts, -, hcs⟩ := hcs
      obtain ⟨more, rfl⟩ := hcs.head
      exact ⟨'[', more, rfl, by simp⟩

end Linked

end LogForwarding.Json
