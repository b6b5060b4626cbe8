/-
# What an arrangement is

Merging coherent elements keeps each of them where it is first contributed,
and the order by section and rank is stable. An arrangement is therefore told
by three things: which elements it has, how they compare, and, of two that
compare equal, which was contributed first.

Key definitions: `Element.StandsBefore`.
Key theorems: `merge_eq_ok_of_coherent`, `pairwise_mergeSort_stable`,
`arrange_eq_ok_of_pairwise`, `pairwise_idxOf_flatMap`.
-/
import LogForwarding.Arrangement
import LogForwarding.Proofs.Coherence
import LogForwarding.Proofs.FirstSeen

namespace LogForwarding

/-! ### Merging -/

theorem keepOnce_eraseDups {seen : List Element} {e : Element} (hc : Coherent (seen ++ [e])) :
    keepOnce seen.eraseDups e = .ok (seen ++ [e]).eraseDups := by
  have hmem := (firstSeen_eraseDups seen).mem_iff
  unfold keepOnce
  rw [eraseDups_concat]
  cases hf : seen.eraseDups.find? (·.name == e.name) with
  | none =>
    have hnew : e ∉ seen := by
      intro he
      have := List.find?_eq_none.1 hf e ((hmem e).2 he)
      simp at this
    rw [if_neg hnew]
  | some first =>
    have hname : first.name = e.name := by simpa using List.find?_some hf
    have hseen : first ∈ seen := (hmem first).1 (List.mem_of_find?_eq_some hf)
    obtain rfl : first = e := hc first (by simp [hseen]) e (by simp) hname
    rw [if_pos hseen]
    exact if_pos rfl

/-- Coherent elements join those before them, each at its first place. -/
theorem foldlM_keepOnce_of_coherent (seen es : List Element) (hc : Coherent (seen ++ es)) :
    es.foldlM keepOnce seen.eraseDups = .ok (seen ++ es).eraseDups := by
  induction es generalizing seen with
  | nil => simp [pure, Except.pure]
  | cons e rest ih =>
    have hstep : Coherent (seen ++ [e]) := hc.subset (by simp [List.subset_def]; tauto)
    rw [List.foldlM_cons]
    refine bind_eq_ok_iff.2 ⟨_, keepOnce_eraseDups hstep, ?_⟩
    rw [ih (seen ++ [e]) (by simpa using hc), List.append_assoc, List.singleton_append]

/-- Coherent elements are merged into themselves, each at its first place. -/
theorem merge_eq_ok_of_coherent {sequences : List (List Element)}
    (hc : Coherent sequences.flatten) : merge sequences = .ok sequences.flatten.eraseDups :=
  foldlM_keepOnce_of_coherent [] sequences.flatten hc

/-- They can be put in order, and none is added. -/
theorem exists_arrange_of_coherent {sequences : List (List Element)}
    (hc : Coherent sequences.flatten) :
    ∃ elements, arrange sequences = .ok elements ∧ elements ⊆ sequences.flatten := by
  refine ⟨_, map_eq_ok_iff.2 ⟨_, merge_eq_ok_of_coherent hc, rfl⟩, fun e he => ?_⟩
  exact List.mem_eraseDups.1 (List.mem_mergeSort.1 he)

/-! ### Sorting -/

/-- Two members of a list without repetitions do not stand in both orders. -/
theorem not_sublist_swap {α : Type} {a b : α} {l : List α} (hn : l.Nodup)
    (hab : [a, b].Sublist l) : ¬ [b, a].Sublist l := by
  induction l with
  | nil => cases hab
  | cons x l ih =>
    obtain ⟨hx, hn⟩ := List.nodup_cons.1 hn
    intro hba
    rcases List.cons_sublist_cons'.1 hab with hab' | ⟨rfl, hb⟩
    · rcases List.cons_sublist_cons'.1 hba with hba' | ⟨rfl, _⟩
      · exact ih hn hab' hba'
      · exact hx (hab'.subset (by simp))
    · rcases List.cons_sublist_cons'.1 hba with hba' | ⟨rfl, _⟩
      · exact hx (hba'.subset (by simp))
      · exact hx (List.singleton_sublist.1 hb)

/-- Two members of a list stand in one order or the other. -/
theorem pair_sublist_or {α : Type} {a b : α} {l : List α} (ha : a ∈ l) (hb : b ∈ l) (h : a ≠ b) :
    [a, b].Sublist l ∨ [b, a].Sublist l := by
  obtain ⟨before, after, rfl⟩ := List.append_of_mem ha
  rcases List.mem_append.1 hb with hb | hb
  · exact .inr ((List.singleton_sublist.2 hb).append (List.singleton_sublist.2 (by simp)))
  · have hb : b ∈ after := (List.mem_cons.1 hb).resolve_left h.symm
    exact .inl (((List.singleton_sublist.2 hb).cons_cons a).trans (List.sublist_append_right _ _))

/-- Members of a sorted list stand in order, and where the order leaves it open, as they stood
before. -/
theorem pairwise_mergeSort_stable {α : Type} {le : α → α → Bool} {R : α → α → Prop} {l : List α}
    (trans : ∀ a b c, le a b → le b c → le a c) (total : ∀ a b, le a b || le b a)
    (hn : l.Nodup) (hR : l.Pairwise R) :
    (l.mergeSort le).Pairwise fun a b => le a b ∧ (le b a → R a b) := by
  have hn' : (l.mergeSort le).Nodup := (List.mergeSort_perm l le).nodup_iff.2 hn
  have hsorted := List.pairwise_mergeSort trans total l
  rw [List.pairwise_iff_forall_sublist] at hR hsorted ⊢
  intro a b hab
  refine ⟨hsorted hab, fun hle => hR ?_⟩
  have hne : a ≠ b := by
    rintro rfl
    exact not_sublist_swap hn' hab hab
  have ha : a ∈ l := List.mem_mergeSort.1 (hab.subset (by simp))
  have hb : b ∈ l := List.mem_mergeSort.1 (hab.subset (by simp))
  refine (pair_sublist_or ha hb hne).resolve_right fun hba => ?_
  exact not_sublist_swap hn' hab (List.pair_sublist_mergeSort trans total hle hba)

theorem precedes_trans (a b c : Element) (hab : a.precedes b) (hbc : b.precedes c) :
    a.precedes c := by
  simp [Element.precedes] at *
  omega

theorem precedes_total (a b : Element) : a.precedes b || b.precedes a := by
  simp [Element.precedes]
  omega

/-- The section of `a` comes first, or it is that of `b` and the rank of `a` is lower. -/
def Element.StandsBefore (a b : Element) : Prop :=
  a.part.position < b.part.position ∨ a.part = b.part ∧ a.rank < b.rank

theorem Element.StandsBefore.precedes {a b : Element} (h : a.StandsBefore b) :
    a.precedes b ∧ ¬ b.precedes a := by
  rcases h with h | ⟨hpart, hrank⟩
  · simp [Element.precedes]
    omega
  · simp [Element.precedes, hpart]
    omega

/-- Where one stands before the other, nothing else decides their order. -/
theorem Element.StandsBefore.ordered {a b : Element} (h : a.StandsBefore b) {R : Prop} :
    a.precedes b ∧ (b.precedes a → R) :=
  ⟨h.precedes.1, fun hba => absurd hba h.precedes.2⟩

/-- In an ordered list an element that stands before another one is found before it. -/
theorem Element.StandsBefore.mem_before {before after : List Element} {a b : Element}
    (h : a.StandsBefore b) (ho : (before ++ b :: after).Pairwise (·.precedes ·))
    (ha : a ∈ before ++ b :: after) : a ∈ before := by
  refine (List.mem_append.1 ha).resolve_right fun hafter => ?_
  rcases List.mem_cons.1 hafter with rfl | hafter
  · exact h.precedes.2 h.precedes.1
  · exact h.precedes.2 ((List.pairwise_cons.1 (List.pairwise_append.1 ho).2.1).1 a hafter)

/-- The other one is found after it. -/
theorem Element.StandsBefore.mem_after {before after : List Element} {a b : Element}
    (h : a.StandsBefore b) (ho : (before ++ a :: after).Pairwise (·.precedes ·))
    (hb : b ∈ before ++ a :: after) : b ∈ after := by
  rcases List.mem_append.1 hb with hbefore | hafter
  · exact absurd ((List.pairwise_append.1 ho).2.2 b hbefore a (by simp)) h.precedes.2
  · refine (List.mem_cons.1 hafter).resolve_left ?_
    rintro rfl
    exact h.precedes.2 h.precedes.1

/-- **An arrangement is told by its order.** If the elements of a list are those that are
contributed, and stand by section and rank, and by first contribution where these are equal, then
the list is the arrangement. -/
theorem arrange_eq_ok_of_pairwise {sequences : List (List Element)} {elements : List Element}
    (hc : Coherent sequences.flatten) (hmem : ∀ e, e ∈ elements ↔ e ∈ sequences.flatten)
    (ho : elements.Pairwise fun a b => a.precedes b ∧
      (b.precedes a → sequences.flatten.idxOf a < sequences.flatten.idxOf b)) :
    arrange sequences = .ok elements := by
  have hseen := firstSeen_eraseDups sequences.flatten
  have hsorted := pairwise_mergeSort_stable precedes_trans precedes_total hseen.nodup hseen.ordered
  have hnodup : elements.Nodup := by
    refine ho.imp fun {a b} hab heq => ?_
    subst heq
    exact Nat.lt_irrefl _ (hab.2 hab.1)
  have hperm : (sequences.flatten.eraseDups.mergeSort Element.precedes).Perm elements := by
    refine (List.perm_ext_iff_of_nodup ?_ hnodup).2 fun e => ?_
    · exact (List.mergeSort_perm _ _).nodup_iff.2 hseen.nodup
    · rw [List.mem_mergeSort, hseen.mem_iff, hmem]
  have heq := List.Perm.eq_of_pairwise
    (fun a b _ _ hab hba => absurd (hab.2 hba.1) (Nat.lt_asymm (hba.2 hab.1))) hsorted ho hperm
  rw [arrange, merge_eq_ok_of_coherent hc, ← heq]
  rfl

/-! ### The order of first contribution -/

/-- What stands in the first part of a list comes before what does not. -/
theorem idxOf_lt_idxOf_append {α : Type} [DecidableEq α] {as bs : List α} {a b : α} (ha : a ∈ as)
    (hb : b ∉ as) : (as ++ bs).idxOf a < (as ++ bs).idxOf b := by
  have hlt := List.idxOf_lt_length_of_mem ha
  rw [List.idxOf_append_of_mem ha, List.idxOf_append_of_notMem hb]
  omega

/-- If each contributor adds an element of its own, and none adds that of a later one, then these
elements are first seen in the order of their contributors. -/
theorem pairwise_idxOf_flatMap {α β : Type} [DecidableEq β] (contribute : α → List β)
    {own : α → β} {l : List α} (seen rest : List β) (hs : ∀ a ∈ l, own a ∉ seen)
    (ho : ∀ a ∈ l, own a ∈ contribute a) (hl : l.Pairwise fun a b => own b ∉ contribute a) :
    (l.map own).Pairwise fun x y =>
      (seen ++ l.flatMap contribute ++ rest).idxOf x <
        (seen ++ l.flatMap contribute ++ rest).idxOf y := by
  induction l generalizing seen with
  | nil => exact .nil
  | cons a l ih =>
    obtain ⟨hsa, hsl⟩ := List.forall_mem_cons.1 hs
    obtain ⟨hoa, hol⟩ := List.forall_mem_cons.1 ho
    obtain ⟨hla, hl⟩ := List.pairwise_cons.1 hl
    have hseen : ∀ b ∈ l, own b ∉ seen ++ contribute a := by
      intro b hb
      rw [List.mem_append, not_or]
      exact ⟨hsl b hb, hla b hb⟩
    have hsplit : seen ++ (a :: l).flatMap contribute ++ rest =
        seen ++ contribute a ++ l.flatMap contribute ++ rest := by simp
    rw [hsplit, List.map_cons, List.pairwise_cons]
    refine ⟨fun y hy => ?_, ih (seen ++ contribute a) hseen hol hl⟩
    obtain ⟨b, hb, rfl⟩ := List.mem_map.1 hy
    rw [List.append_assoc _ _ rest]
    exact idxOf_lt_idxOf_append (List.mem_append_right _ hoa) (hseen b hb)

end LogForwarding
