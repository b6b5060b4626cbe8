/-
# What a merge is

Merging looks at the elements of all sequences one after the other, and keeps
an element if it is the first of its name. The others of that name only have to
be equal to it. So a merge succeeds if the elements are coherent, and then
gives the first element of each name; and otherwise it names the first element
that is not equal to the first of its name (`merge_eq`). Comparing with the
first one is enough to compare all.

The elements that are kept can be found through an index from their names to
their places; it always agrees with the list (`Merging.Indexes`), so a merge
with the index is the same. And as elements that come again change nothing, a
sequence that has been merged can take the place of the one that it was made
from (`merge_replace`).

Key definitions: `firstNamed?`, `firstOfEachName`, `firstStray?`, `Merging`.
Key theorems: `firstStray?_eq_none_iff`, `merge_eq`,
`foldlM_keepOnce_eraseDups`, `merge_replace`, `mergeIndexed_eq_merge`,
`merge_keeps_firsts`.
-/
import LogForwarding.Proofs.Arrangement

namespace LogForwarding

/-- The first element of the name. -/
def firstNamed? (es : List Element) (name : String) : Option Element := es.find? (·.name == name)

/-- The first element of each name, in the order in which the names are first seen. -/
def firstOfEachName (es : List Element) : List Element :=
  (es.map Element.name).eraseDups.filterMap (firstNamed? es)

/-- The first element that is not equal to the first one of its name. -/
def firstStray? (es : List Element) : Option Element :=
  es.find? fun e => firstNamed? es e.name ≠ some e

/-! ### First elements -/

theorem name_of_firstNamed? {es : List Element} {name : String} {e : Element}
    (h : firstNamed? es name = some e) : e.name = name := by
  simpa using List.find?_some h

theorem find?_cons_self (e : Element) (es : List Element) :
    (e :: es).find? (·.name == e.name) = some e :=
  List.find?_cons_of_pos (beq_self_eq_true e.name)

theorem exists_firstNamed? {es : List Element} {e : Element} (h : e ∈ es) :
    ∃ first ∈ es, firstNamed? es e.name = some first := by
  have hsome : (firstNamed? es e.name).isSome = true :=
    List.find?_isSome.2 ⟨e, h, beq_self_eq_true _⟩
  obtain ⟨first, hfirst⟩ := Option.isSome_iff_exists.1 hsome
  exact ⟨first, List.mem_of_find?_eq_some hfirst, hfirst⟩

/-- Among coherent elements each is the first of its name. -/
theorem Coherent.firstNamed?_eq {es : List Element} (hc : Coherent es) {e : Element} (h : e ∈ es) :
    firstNamed? es e.name = some e := by
  obtain ⟨first, hmem, hfirst⟩ := exists_firstNamed? h
  rw [hfirst, hc first hmem e h (name_of_firstNamed? hfirst)]

/-- Elements that are equal to the first of their name are equal to each other. -/
theorem coherent_of_firstNamed? {es all : List Element}
    (h : ∀ e ∈ es, firstNamed? all e.name = some e) : Coherent es := by
  intro a ha b hb hab
  have hfirst := h a ha
  rw [hab, h b hb] at hfirst
  exact (Option.some.inj hfirst).symm

theorem firstStray?_eq_none_iff {es : List Element} : firstStray? es = none ↔ Coherent es := by
  simp only [firstStray?, List.find?_eq_none, decide_eq_true_eq, not_not]
  exact ⟨coherent_of_firstNamed?, fun hc e he => hc.firstNamed?_eq he⟩

/-- The first element that strays comes after the one that it is not equal to. -/
theorem firstStray?_eq_some {es : List Element} {stray : Element}
    (h : firstStray? es = some stray) :
    ∃ before after first, es = before ++ stray :: after ∧ Coherent before ∧ first ∈ before ∧
      first.name = stray.name ∧ first ≠ stray := by
  obtain ⟨hstray, before, after, rfl, hbefore⟩ := List.find?_eq_some_iff_append.1 h
  have hkept : ∀ e ∈ before, firstNamed? (before ++ stray :: after) e.name = some e := by
    simpa using hbefore
  have hmem : stray ∈ before ++ stray :: after := by simp
  obtain ⟨first, _, hfirst⟩ := exists_firstNamed? hmem
  have hne : first ≠ stray := by
    rintro rfl
    exact of_decide_eq_true hstray hfirst
  refine ⟨before, after, first, rfl, coherent_of_firstNamed? hkept, ?_, name_of_firstNamed? hfirst,
    hne⟩
  rw [firstNamed?, List.find?_append, find?_cons_self] at hfirst
  cases hf : before.find? (·.name == stray.name) with
  | none =>
    rw [hf, Option.none_or] at hfirst
    exact absurd (Option.some.inj hfirst).symm hne
  | some found =>
    rw [hf, Option.some_or] at hfirst
    exact Option.some.inj hfirst ▸ List.mem_of_find?_eq_some hf

/-- Of coherent elements, repetitions are told by the names. -/
theorem Coherent.map_name_eraseDups {es : List Element} (hc : Coherent es) :
    es.eraseDups.map Element.name = (es.map Element.name).eraseDups := by
  induction es using List.reverseRecOn with
  | nil => rfl
  | append_singleton es e ih =>
    have hsame : e ∈ es ↔ e.name ∈ es.map Element.name := by
      refine ⟨List.mem_map_of_mem, fun hname => ?_⟩
      obtain ⟨a, ha, hname⟩ := List.mem_map.1 hname
      exact hc a (by simp [ha]) e (by simp) hname ▸ ha
    have hes : es ⊆ es ++ [e] := List.subset_append_left _ _
    rw [eraseDups_concat, List.map_append, List.map_singleton, eraseDups_concat]
    simp only [hsame]
    split_ifs
    · exact ih (hc.subset hes)
    · rw [List.map_append, List.map_singleton, ih (hc.subset hes)]

/-- Of coherent elements, the first of each name are those without repetitions. -/
theorem Coherent.firstOfEachName_eq {es : List Element} (hc : Coherent es) :
    firstOfEachName es = es.eraseDups := by
  have hkept : ∀ e ∈ es.eraseDups, (firstNamed? es ∘ Element.name) e = some e :=
    fun e he => hc.firstNamed?_eq (List.mem_eraseDups.1 he)
  rw [firstOfEachName, ← hc.map_name_eraseDups, List.filterMap_map, List.filterMap_congr hkept,
    List.filterMap_some]

/-! ### Merging -/

/-- An element that is not equal to one of its name is refused. -/
theorem keepOnce_eq_error {seen : List Element} {first e : Element} (hc : Coherent seen)
    (hf : first ∈ seen) (hname : first.name = e.name) (hne : first ≠ e) :
    keepOnce seen.eraseDups e = .error (.nameCollision e.name) := by
  have hsub : seen.eraseDups ⊆ seen := fun _ => List.mem_eraseDups.1
  have hfound : seen.eraseDups.find? (·.name == e.name) = some first :=
    hname ▸ (hc.subset hsub).firstNamed?_eq (List.mem_eraseDups.2 hf)
  rw [keepOnce, hfound]
  exact if_neg hne

/-- **The outcome of a merge** is told by the first element that is not equal to the first of its
name, if there is one. -/
theorem merge_eq (sequences : List (List Element)) :
    merge sequences = match firstStray? sequences.flatten with
      | none => .ok (firstOfEachName sequences.flatten)
      | some stray => .error (.nameCollision stray.name) := by
  cases hs : firstStray? sequences.flatten with
  | none =>
    have hc := firstStray?_eq_none_iff.1 hs
    rw [merge_eq_ok_of_coherent hc, hc.firstOfEachName_eq]
  | some stray =>
    obtain ⟨before, after, first, hsplit, hc, hf, hname, hne⟩ := firstStray?_eq_some hs
    have hbefore : before.foldlM keepOnce [] = .ok before.eraseDups :=
      foldlM_keepOnce_of_coherent [] before hc
    have hstray : (stray :: after).foldlM keepOnce before.eraseDups =
        .error (.nameCollision stray.name) := by
      rw [List.foldlM_cons]
      exact bind_eq_error_iff.2 (.inl (keepOnce_eq_error hc hf hname hne))
    rw [merge, hsplit, List.foldlM_append]
    exact bind_eq_error_iff.2 (.inr ⟨_, hbefore, hstray⟩)

theorem exists_merge_iff {sequences : List (List Element)} :
    (∃ merged, merge sequences = .ok merged) ↔ Coherent sequences.flatten := by
  rw [← firstStray?_eq_none_iff, merge_eq]
  cases firstStray? sequences.flatten <;> simp

/-! ### Elements that come again -/

/-- An element that has been looked at is the one that is kept under its name. -/
theorem find?_of_keepOnce {kept kept' : List Element} {e : Element}
    (h : keepOnce kept e = .ok kept') :
    kept'.find? (·.name == e.name) = some e ∧
      ∀ p a, kept.find? p = some a → kept'.find? p = some a := by
  unfold keepOnce at h
  cases hf : kept.find? (·.name == e.name) with
  | none =>
    rw [hf] at h
    cases h
    refine ⟨?_, fun p a ha => ?_⟩
    · rw [List.find?_append, hf, Option.none_or, find?_cons_self]
    · rw [List.find?_append, ha, Option.some_or]
  | some first =>
    rw [hf] at h
    dsimp only at h
    split_ifs at h with heq
    cases h
    exact ⟨heq ▸ hf, fun p a ha => ha⟩

/-- It stays so. -/
theorem find?_of_foldlM_keepOnce {es kept kept' : List Element}
    (h : es.foldlM keepOnce kept = .ok kept') :
    (∀ e ∈ es, kept'.find? (·.name == e.name) = some e) ∧
      ∀ p a, kept.find? p = some a → kept'.find? p = some a := by
  induction es generalizing kept with
  | nil =>
    cases h
    exact ⟨by simp, fun _ _ ha => ha⟩
  | cons e rest ih =>
    rw [List.foldlM_cons] at h
    obtain ⟨middle, hstep, hrest⟩ := bind_eq_ok_iff.1 h
    obtain ⟨hfound, hlasts⟩ := find?_of_keepOnce hstep
    obtain ⟨hfounds, hstays⟩ := ih hrest
    refine ⟨List.forall_mem_cons.2 ⟨hstays _ _ hfound, hfounds⟩, fun p a ha => ?_⟩
    exact hstays p a (hlasts p a ha)

/-- So an element that comes again changes nothing. -/
theorem foldlM_keepOnce_eraseDups (kept es : List Element) :
    es.eraseDups.foldlM keepOnce kept = es.foldlM keepOnce kept := by
  induction es using List.reverseRecOn with
  | nil => rfl
  | append_singleton es e ih =>
    rw [eraseDups_concat, List.foldlM_append, ← ih]
    split_ifs with he
    · cases hk : es.eraseDups.foldlM keepOnce kept with
      | error fault => rfl
      | ok kept' =>
        have hfound := (find?_of_foldlM_keepOnce hk).1 e (List.mem_eraseDups.2 he)
        have hagain : keepOnce kept' e = .ok kept' := by
          rw [keepOnce, hfound]
          exact if_pos rfl
        show Except.ok kept' = [e].foldlM keepOnce kept'
        rw [List.foldlM_cons, hagain]
        rfl
    · rw [List.foldlM_append]

/-- A sequence that has been merged can take the place of the one that it was made from. -/
theorem merge_replace {before after : List (List Element)} {sequence merged : List Element}
    (h : merge [sequence] = .ok merged) :
    merge (before ++ merged :: after) = merge (before ++ sequence :: after) := by
  have hc : Coherent sequence := by simpa using exists_merge_iff.1 ⟨merged, h⟩
  have hmerged : merged = sequence.eraseDups := by
    have hkept := foldlM_keepOnce_of_coherent [] sequence hc
    rw [merge, List.flatten_singleton] at h
    exact Except.ok.inj (h.symm.trans hkept)
  have hpart : ∀ part : List Element, merge (before ++ part :: after) = (do
      let kept ← before.flatten.foldlM keepOnce []
      let kept ← part.foldlM keepOnce kept
      after.flatten.foldlM keepOnce kept) := by
    intro part
    rw [merge, List.flatten_append, List.flatten_cons, List.foldlM_append]
    exact bind_congr_ok fun kept _ => List.foldlM_append ..
  rw [hpart, hpart, hmerged]
  simp only [foldlM_keepOnce_eraseDups]

/-! ### With an index -/

/-- Elements that have been kept, and the place of each by its name. -/
structure Merging where
  kept : List Element
  index : Std.ExtTreeMap String Nat

namespace Merging

/-- Keep `e`, unless its name has a place already: what stands there has to be equal. -/
def add (m : Merging) (e : Element) : Except Fault Merging :=
  match m.index[e.name]? with
  | some place => if m.kept[place]? = some e then .ok m else .error (.nameCollision e.name)
  | none => .ok ⟨m.kept ++ [e], m.index.insert e.name m.kept.length⟩

/-- The index has the place of the first element of each name, and nothing else. -/
def Indexes (m : Merging) : Prop :=
  ∀ name : String, m.index[name]? = m.kept.findIdx? (·.name == name)

theorem indexes_empty : Indexes ⟨[], ∅⟩ := fun _ => by simp

variable {m m' : Merging} {e : Element}

/-- With the index an element is treated as without it. -/
theorem Indexes.map_kept_add (h : m.Indexes) (e : Element) :
    (m.add e).map kept = keepOnce m.kept e := by
  have hfind : m.kept.find? (·.name == e.name) = m.index[e.name]?.bind (m.kept[·]?) := by
    rw [h e.name]
    exact List.find?_eq_bind_findIdx?_getElem?
  rw [keepOnce, hfind, add]
  cases hp : m.index[e.name]? with
  | none => rfl
  | some place =>
    rw [h e.name] at hp
    obtain ⟨hlt, _⟩ := List.findIdx?_eq_some_iff_getElem.1 hp
    have hget : m.kept[place]? = some m.kept[place] := List.getElem?_eq_getElem hlt
    simp only [Option.bind_some, hget, Option.some.injEq]
    split_ifs <;> rfl

/-- The index stays right. -/
theorem Indexes.add (h : m.Indexes) (ha : m.add e = .ok m') : m'.Indexes := by
  unfold Merging.add at ha
  cases hp : m.index[e.name]? with
  | some place =>
    rw [hp] at ha
    dsimp only at ha
    split_ifs at ha
    cases ha
    exact h
  | none =>
    rw [hp] at ha
    cases ha
    intro name
    rw [Std.ExtTreeMap.getElem?_insert, List.findIdx?_append, List.findIdx?_singleton, ← h name]
    by_cases hname : e.name = name
    · subst hname
      simp [hp]
    · have hcompare : compare e.name name ≠ .eq :=
        fun hc => hname (Std.LawfulEqCmp.compare_eq_iff_eq.1 hc)
      simp [hname, hcompare]

theorem Indexes.map_kept_foldlM (h : m.Indexes) (es : List Element) :
    (es.foldlM Merging.add m).map kept = es.foldlM keepOnce m.kept := by
  induction es generalizing m with
  | nil => rfl
  | cons e rest ih =>
    rw [List.foldlM_cons, List.foldlM_cons, ← h.map_kept_add]
    cases ha : m.add e with
    | error fault => rfl
    | ok m' => exact ih (h.add ha)

end Merging

/-- The elements of all sequences in order, each name once, with an index of what has been kept. -/
def mergeIndexed (sequences : List (List Element)) : Except Fault (List Element) :=
  (sequences.flatten.foldlM Merging.add ⟨[], ∅⟩).map Merging.kept

/-- The index makes no difference. -/
theorem mergeIndexed_eq_merge (sequences : List (List Element)) :
    mergeIndexed sequences = merge sequences :=
  Merging.indexes_empty.map_kept_foldlM sequences.flatten

/-! ### The whole -/

/-- **A merge keeps the first element of each name.** With an index or without, it succeeds if and
only if elements of one name are equal; it then gives the first element of each name, in order, so
that each name is there once. Otherwise it fails with the name of the first element that is not
equal to the first of its name. A sequence may be replaced by what it is merged into. -/
theorem merge_keeps_firsts (sequences : List (List Element)) :
    mergeIndexed sequences = merge sequences ∧
    ((∃ merged, merge sequences = .ok merged) ↔ Coherent sequences.flatten) ∧
    (∀ merged, merge sequences = .ok merged →
      merged = firstOfEachName sequences.flatten ∧ merged.Sublist sequences.flatten ∧
        FirstSeen (sequences.flatten.map Element.name) (merged.map Element.name)) ∧
    (¬ Coherent sequences.flatten → ∃ stray, firstStray? sequences.flatten = some stray ∧
      merge sequences = .error (.nameCollision stray.name)) ∧
    ∀ before sequence after merged, sequences = before ++ sequence :: after →
      merge [sequence] = .ok merged → merge (before ++ merged :: after) = merge sequences := by
  refine ⟨mergeIndexed_eq_merge sequences, exists_merge_iff, fun merged hm => ?_, fun hc => ?_, ?_⟩
  · have hc := exists_merge_iff.1 ⟨merged, hm⟩
    rw [merge_eq_ok_of_coherent hc] at hm
    cases hm
    refine ⟨hc.firstOfEachName_eq.symm, eraseDups_sublist _, ?_⟩
    rw [hc.map_name_eraseDups]
    exact firstSeen_eraseDups _
  · rw [← firstStray?_eq_none_iff, ← ne_eq, Option.ne_none_iff_exists'] at hc
    obtain ⟨stray, hstray⟩ := hc
    exact ⟨stray, hstray, by rw [merge_eq, hstray]⟩
  · rintro before sequence after merged rfl h
    exact merge_replace h

end LogForwarding
