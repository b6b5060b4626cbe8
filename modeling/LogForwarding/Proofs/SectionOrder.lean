/-
# The order of an arrangement

Elements are ordered by a key, the place of their section and then their rank.
An arrangement fails where the merge of its sequences does, and otherwise puts
in order what the merge has kept: the keys never decrease, and among the
elements of one key none overtakes another (`Arranges`). A list that is ordered
is told by its elements of each key (`eq_of_filter_key_eq`), so these two things
say what the arrangement is.

What has been arranged is arranged into itself. And where sequences come in
another order the same elements are kept, and each key has as many of them: only
elements of one key can change places.

Key definitions: `Element.key`, `Arranges`, `EqualUpToTies`.
Key theorems: `eq_of_filter_key_eq`, `Arranges.pairwise`,
`arranges_mergeSort`, `arrange_eq_ok_iff`, `arrange_flatten`, `arrange_filter`,
`equalUpToTies_of_mem_iff`, `arrange_ordered`.
-/
import LogForwarding.Proofs.Merging
import Mathlib.Data.Prod.Lex

namespace LogForwarding

/-- What elements are ordered by: the place of the section in the document, and then the rank. -/
def Element.key (e : Element) : ℕ ×ₗ ℕ := toLex (e.part.position, e.rank)

theorem Element.precedes_iff {a b : Element} : a.precedes b ↔ a.key ≤ b.key := by
  simp [precedes, key, Prod.Lex.toLex_le_toLex]

/-! ### Ordered lists -/

/-- `arranged` is `kept` in order. -/
structure Arranges (kept arranged : List Element) : Prop where
  /-- No element is lost or added. -/
  perm : arranged.Perm kept
  /-- Keys never decrease. -/
  sorted : arranged.Pairwise (·.key ≤ ·.key)
  /-- Elements of one key stand as before. -/
  stable : ∀ key, arranged.filter (·.key = key) = kept.filter (·.key = key)

/-- The first key of an ordered list is its least. -/
theorem key_le_of_mem {a b : Element} {as : List Element} (h : (a :: as).Pairwise (·.key ≤ ·.key))
    (hb : b ∈ a :: as) : a.key ≤ b.key := by
  rcases List.mem_cons.1 hb with rfl | hb
  · exact le_refl _
  · exact (List.pairwise_cons.1 h).1 b hb

/-- An ordered list is told by its elements of each key. -/
theorem eq_of_filter_key_eq {as bs : List Element} (ha : as.Pairwise (·.key ≤ ·.key))
    (hb : bs.Pairwise (·.key ≤ ·.key))
    (h : ∀ key, as.filter (·.key = key) = bs.filter (·.key = key)) : as = bs := by
  have hmem : ∀ e, e ∈ as ↔ e ∈ bs := by
    intro e
    have he : e ∈ as.filter (·.key = e.key) ↔ e ∈ bs.filter (·.key = e.key) := by rw [h]
    simpa using he
  induction as generalizing bs with
  | nil => exact (List.eq_nil_iff_forall_not_mem.2 fun e he => by simpa using (hmem e).2 he).symm
  | cons a as ih =>
    cases bs with
    | nil => simpa using (hmem a).1 List.mem_cons_self
    | cons b bs =>
      have hkey : a.key = b.key :=
        le_antisymm (key_le_of_mem ha ((hmem b).2 List.mem_cons_self))
          (key_le_of_mem hb ((hmem a).1 List.mem_cons_self))
      have hfirst := h a.key
      rw [List.filter_cons_of_pos (by simp), List.filter_cons_of_pos (by simp [hkey])] at hfirst
      obtain ⟨rfl, _⟩ := List.cons.inj hfirst
      have hrest : ∀ key, as.filter (·.key = key) = bs.filter (·.key = key) := by
        intro key
        have hall := h key
        rw [List.filter_cons, List.filter_cons] at hall
        split_ifs at hall
        · exact (List.cons.inj hall).2
        · exact hall
      rw [ih (List.pairwise_cons.1 ha).2 (List.pairwise_cons.1 hb).2 hrest fun e => ?_]
      have he : e ∈ as.filter (·.key = e.key) ↔ e ∈ bs.filter (·.key = e.key) := by rw [hrest]
      simpa using he

/-- In an order, sources come first, then transforms, sinks and fragments, each by rank. -/
theorem Arranges.pairwise {kept arranged : List Element} (h : Arranges kept arranged) :
    arranged.Pairwise fun a b =>
      [a.part, b.part].Sublist [.sources, .transforms, .sinks, .fragment] ∨
        a.part = b.part ∧ a.rank ≤ b.rank := by
  refine h.sorted.imp fun {a b} hkey => ?_
  rw [Element.key, Element.key, Prod.Lex.toLex_le_toLex, Section.position_lt_iff] at hkey
  exact hkey.imp_right (And.imp_left Section.eq_of_position_eq)

theorem arranges_mergeSort (kept : List Element) :
    Arranges kept (kept.mergeSort Element.precedes) := by
  have hperm := List.mergeSort_perm kept Element.precedes
  refine ⟨hperm, ?_, fun key => ?_⟩
  · exact (List.pairwise_mergeSort precedes_trans precedes_total kept).imp Element.precedes_iff.1
  · -- The elements of one key are ordered as they stand, so sorting leaves them as they stand.
    have hties : (kept.filter (·.key = key)).Pairwise (·.precedes ·) := by
      refine List.pairwise_of_forall_mem_list fun a ha b hb => ?_
      have hakey : a.key = key := by simpa using (List.mem_filter.1 ha).2
      have hbkey : b.key = key := by simpa using (List.mem_filter.1 hb).2
      exact Element.precedes_iff.2 (le_of_eq (hakey.trans hbkey.symm))
    have hsub := (List.sublist_mergeSort precedes_trans precedes_total hties
      List.filter_sublist).filter (·.key = key)
    rw [List.filter_filter] at hsub
    simp only [Bool.and_self] at hsub
    exact (hsub.eq_of_length (hperm.filter _).length_eq.symm).symm

theorem Arranges.eq {kept as bs : List Element} (ha : Arranges kept as) (hb : Arranges kept bs) :
    as = bs :=
  eq_of_filter_key_eq ha.sorted hb.sorted fun key => (ha.stable key).trans (hb.stable key).symm

/-! ### Arrangements -/

/-- **An arrangement is what the merge has kept, in order.** -/
theorem arrange_eq_ok_iff {sequences : List (List Element)} {arranged : List Element} :
    arrange sequences = .ok arranged ↔
      ∃ kept, merge sequences = .ok kept ∧ Arranges kept arranged := by
  rw [arrange, map_eq_ok_iff]
  constructor
  · rintro ⟨kept, hkept, rfl⟩
    exact ⟨kept, hkept, arranges_mergeSort kept⟩
  · rintro ⟨kept, hkept, h⟩
    exact ⟨kept, hkept, (arranges_mergeSort kept).eq h⟩

theorem exists_arrange_iff {sequences : List (List Element)} :
    (∃ arranged, arrange sequences = .ok arranged) ↔ Coherent sequences.flatten := by
  rw [arrange, exists_map_eq_ok_iff, exists_merge_iff]

theorem merge_eq_ok_iff {sequences : List (List Element)} {kept : List Element} :
    merge sequences = .ok kept ↔
      Coherent sequences.flatten ∧ kept = sequences.flatten.eraseDups := by
  constructor
  · intro h
    have hc := exists_merge_iff.1 ⟨kept, h⟩
    rw [merge_eq_ok_of_coherent hc] at h
    exact ⟨hc, (Except.ok.inj h).symm⟩
  · rintro ⟨hc, rfl⟩
    exact merge_eq_ok_of_coherent hc

/-- What has been arranged is arranged into itself, in whichever parts it comes. -/
theorem arrange_flatten {sequences parts : List (List Element)}
    (h : arrange sequences = .ok parts.flatten) : arrange parts = .ok parts.flatten := by
  obtain ⟨kept, hkept, harranged⟩ := arrange_eq_ok_iff.1 h
  obtain ⟨hc, rfl⟩ := merge_eq_ok_iff.1 hkept
  have hseen := firstSeen_eraseDups sequences.flatten
  have hnodup : parts.flatten.Nodup := harranged.perm.nodup_iff.2 hseen.nodup
  have hcoherent : Coherent parts.flatten :=
    hc.subset fun e he => (hseen.mem_iff e).1 (harranged.perm.mem_iff.1 he)
  have hmerge : merge parts = .ok parts.flatten :=
    merge_eq_ok_iff.2 ⟨hcoherent, (FirstSeen.of_nodup hnodup).eq_eraseDups⟩
  exact arrange_eq_ok_iff.2 ⟨_, hmerge, .refl _, harranged.sorted, fun _ => rfl⟩

/-- What is picked from an order is in order. -/
theorem Arranges.filter {kept arranged : List Element} (h : Arranges kept arranged)
    (p : Element → Bool) : Arranges (kept.filter p) (arranged.filter p) := by
  refine ⟨h.perm.filter p, h.sorted.filter p, fun key => ?_⟩
  rw [List.filter_comm, h.stable, List.filter_comm]

/-- Elements can be picked before they are arranged or after it. -/
theorem arrange_filter {sequences picked : List (List Element)} {arranged : List Element}
    {p : Element → Bool} (hp : picked.flatten = sequences.flatten.filter p)
    (h : arrange sequences = .ok arranged) : arrange picked = .ok (arranged.filter p) := by
  obtain ⟨kept, hkept, harranged⟩ := arrange_eq_ok_iff.1 h
  obtain ⟨hc, rfl⟩ := merge_eq_ok_iff.1 hkept
  have hcoherent : Coherent picked.flatten := by
    rw [hp]
    exact hc.subset fun e he => List.mem_of_mem_filter he
  have hmerge : merge picked = .ok (sequences.flatten.eraseDups.filter p) := by
    rw [merge_eq_ok_iff, ← eraseDups_filter, hp]
    exact ⟨hp ▸ hcoherent, rfl⟩
  exact arrange_eq_ok_iff.2 ⟨_, hmerge, harranged.filter p⟩

/-- The lists differ only in how elements of one key stand among each other. -/
structure EqualUpToTies (as bs : List Element) : Prop where
  /-- The same keys stand at the same places. -/
  keys : as.map Element.key = bs.map Element.key
  /-- Each key has the same elements. -/
  ties : ∀ key, (as.filter (·.key = key)).Perm (bs.filter (·.key = key))

/-- Where the same elements are contributed, they are arranged alike up to ties. -/
theorem equalUpToTies_of_mem_iff {sequences sequences' : List (List Element)}
    {as bs : List Element} (hmem : ∀ e, e ∈ sequences.flatten ↔ e ∈ sequences'.flatten)
    (ha : arrange sequences = .ok as) (hb : arrange sequences' = .ok bs) : EqualUpToTies as bs := by
  obtain ⟨kept, hkept, ha⟩ := arrange_eq_ok_iff.1 ha
  obtain ⟨kept', hkept', hb⟩ := arrange_eq_ok_iff.1 hb
  obtain ⟨_, rfl⟩ := merge_eq_ok_iff.1 hkept
  obtain ⟨_, rfl⟩ := merge_eq_ok_iff.1 hkept'
  have hseen := firstSeen_eraseDups sequences.flatten
  have hseen' := firstSeen_eraseDups sequences'.flatten
  have hkeeps : sequences.flatten.eraseDups.Perm sequences'.flatten.eraseDups := by
    refine (List.perm_ext_iff_of_nodup hseen.nodup hseen'.nodup).2 fun e => ?_
    rw [hseen.mem_iff, hseen'.mem_iff, hmem]
  have hperm : as.Perm bs := ha.perm.trans (hkeeps.trans hb.perm.symm)
  refine ⟨?_, fun key => hperm.filter _⟩
  exact List.Perm.eq_of_pairwise (fun _ _ _ _ => le_antisymm) (List.pairwise_map.2 ha.sorted)
    (List.pairwise_map.2 hb.sorted) (hperm.map _)

/-- **An arrangement is ordered, and nothing more.** It fails as the merge of its sequences does,
and otherwise has what the merge has kept, each element where it was first seen: ordered by section
and rank, and among equal ones as they were kept. Sources come first, then transforms, sinks and
fragments. What has been arranged stays as it is; and sequences in another order are arranged as
well or not at all, alike up to ties. -/
theorem arrange_ordered (sequences : List (List Element)) :
    (∀ fault, arrange sequences = .error fault ↔ merge sequences = .error fault) ∧
    (∀ arranged, arrange sequences = .ok arranged ↔ ∃ kept, merge sequences = .ok kept ∧
      FirstSeen sequences.flatten kept ∧ Arranges kept arranged) ∧
    (∀ arranged, arrange sequences = .ok arranged → arranged.Pairwise fun a b =>
      [a.part, b.part].Sublist [.sources, .transforms, .sinks, .fragment] ∨
        a.part = b.part ∧ a.rank ≤ b.rank) ∧
    (∀ arranged parts, arrange sequences = .ok arranged → parts.flatten = arranged →
      arrange parts = .ok arranged) ∧
    ∀ sequences' : List (List Element), sequences'.Perm sequences →
      ((∃ arranged, arrange sequences' = .ok arranged) ↔
        ∃ arranged, arrange sequences = .ok arranged) ∧
      ∀ arranged arranged', arrange sequences = .ok arranged →
        arrange sequences' = .ok arranged' → EqualUpToTies arranged arranged' := by
  refine ⟨fun fault => map_eq_error_iff, fun arranged => ?_, fun arranged h => ?_, ?_,
    fun sequences' hperm => ?_⟩
  · have hseen : ∀ kept, merge sequences = .ok kept → FirstSeen sequences.flatten kept := by
      intro kept hkept
      rw [(merge_eq_ok_iff.1 hkept).2]
      exact firstSeen_eraseDups sequences.flatten
    rw [arrange_eq_ok_iff]
    exact exists_congr fun kept => and_congr_right fun hkept =>
      (and_iff_right (hseen kept hkept)).symm
  · obtain ⟨kept, _, harranges⟩ := arrange_eq_ok_iff.1 h
    exact harranges.pairwise
  · rintro _ parts h rfl
    exact arrange_flatten h
  · have hflatten : sequences'.flatten.Perm sequences.flatten := hperm.flatten
    have hsub : sequences'.flatten ⊆ sequences.flatten := hflatten.subset
    have hsub' : sequences.flatten ⊆ sequences'.flatten := hflatten.symm.subset
    rw [exists_arrange_iff, exists_arrange_iff]
    refine ⟨⟨fun hc => hc.subset hsub', fun hc => hc.subset hsub⟩, fun arranged arranged' => ?_⟩
    exact equalUpToTies_of_mem_iff fun e => hflatten.symm.mem_iff

end LogForwarding
