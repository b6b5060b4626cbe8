/-
# Lists without repetitions

References may be repeated, and a repeated one counts once: at the place where
it is first seen.

Key definitions: `FirstSeen`, `Repeats`.
Key theorems: `firstSeen_eraseDups`, `FirstSeen.eq_eraseDups`,
`eraseDups_flatMap_eraseDups`, `eraseDups_filter`, `Repeats.eraseDups_eq`,
`FirstSeen.map`, `FirstSeen.nodup`.
-/
import Mathlib.Data.List.Basic
import Mathlib.Data.List.Induction

namespace LogForwarding

variable {α β : Type} [DecidableEq α] [DecidableEq β]

/-- `kept` has the members of `seen`, in the order of their first places in it. -/
structure FirstSeen (seen kept : List α) : Prop where
  /-- Nothing is lost or added. -/
  mem_iff : ∀ a, a ∈ kept ↔ a ∈ seen
  /-- What is kept earlier was seen earlier. -/
  ordered : kept.Pairwise (seen.idxOf · < seen.idxOf ·)

/-- Nothing is kept twice. -/
theorem FirstSeen.nodup {seen kept : List α} (h : FirstSeen seen kept) : kept.Nodup := by
  refine h.ordered.imp fun hlt heq => ?_
  rw [heq] at hlt
  exact Nat.lt_irrefl _ hlt

/-- Where nothing is seen twice, everything is kept where it is. -/
theorem FirstSeen.of_nodup {list : List α} (h : list.Nodup) : FirstSeen list list := by
  refine ⟨fun _ => Iff.rfl, List.pairwise_iff_getElem.2 fun i j hi hj hij => ?_⟩
  rwa [h.idxOf_getElem, h.idxOf_getElem]

theorem FirstSeen.ne_nil {seen kept : List α} (h : FirstSeen seen kept) (hs : seen ≠ []) :
    kept ≠ [] := by
  obtain ⟨a, ha⟩ := List.exists_mem_of_ne_nil seen hs
  exact List.ne_nil_of_mem ((h.mem_iff a).2 ha)

/-- A member that is seen last is kept last if it is new, and not again otherwise. -/
theorem FirstSeen.concat {seen kept : List α} (h : FirstSeen seen kept) (a : α) :
    FirstSeen (seen ++ [a]) (if a ∈ seen then kept else kept ++ [a]) := by
  have hbefore : ∀ x ∈ kept, (seen ++ [a]).idxOf x = seen.idxOf x :=
    fun x hx => List.idxOf_append_of_mem ((h.mem_iff x).1 hx)
  have hordered : kept.Pairwise ((seen ++ [a]).idxOf · < (seen ++ [a]).idxOf ·) := by
    refine h.ordered.imp_of_mem fun hx hy hlt => ?_
    rwa [hbefore _ hx, hbefore _ hy]
  by_cases ha : a ∈ seen
  · rw [if_pos ha]
    refine ⟨fun x => ?_, hordered⟩
    rw [h.mem_iff, List.mem_append, List.mem_singleton]
    constructor
    · exact .inl
    · rintro (hx | rfl)
      · exact hx
      · exact ha
  · rw [if_neg ha]
    refine ⟨fun x => by simp [h.mem_iff], List.pairwise_append.2 ⟨hordered, by simp, ?_⟩⟩
    intro x hx y hy
    have hlt := List.idxOf_lt_length_of_mem ((h.mem_iff x).1 hx)
    rw [List.mem_singleton] at hy
    rw [hbefore x hx, hy, List.idxOf_append_of_notMem ha]
    omega

theorem eraseDups_concat (seen : List α) (a : α) :
    (seen ++ [a]).eraseDups = if a ∈ seen then seen.eraseDups else seen.eraseDups ++ [a] := by
  rw [List.eraseDups_append]
  by_cases ha : a ∈ seen <;> simp [List.removeAll, ha, List.eraseDups_cons]

theorem eraseDups_sublist (l : List α) : l.eraseDups.Sublist l := by
  induction l using List.reverseRecOn with
  | nil => exact .slnil
  | append_singleton l a ih =>
    rw [eraseDups_concat]
    split_ifs
    · exact ih.trans (List.sublist_append_left _ _)
    · exact ih.append_right [a]

theorem firstSeen_eraseDups (seen : List α) : FirstSeen seen seen.eraseDups := by
  induction seen using List.reverseRecOn with
  | nil => exact ⟨by simp, by simp⟩
  | append_singleton seen a ih =>
    rw [eraseDups_concat]
    exact ih.concat a

/-- There is only one way to keep what is first seen. -/
theorem FirstSeen.eq_eraseDups {seen kept : List α} (h : FirstSeen seen kept) :
    kept = seen.eraseDups := by
  have herased := firstSeen_eraseDups seen
  refine List.Perm.eq_of_pairwise (fun a b _ _ hab hba => absurd hab (Nat.lt_asymm hba))
    h.ordered herased.ordered ?_
  refine (List.perm_ext_iff_of_nodup h.nodup herased.nodup).2 fun a => ?_
  rw [h.mem_iff, herased.mem_iff]

/-- Of what stands before only the first places matter. -/
theorem eraseDups_append_congr {as bs : List α} (h : as.eraseDups = bs.eraseDups) (l : List α) :
    (as ++ l).eraseDups = (bs ++ l).eraseDups := by
  induction l using List.reverseRecOn with
  | nil => simpa using h
  | append_singleton l a ih =>
    have hmem : a ∈ as ++ l ↔ a ∈ bs ++ l := by
      rw [← List.mem_eraseDups, ih, List.mem_eraseDups]
    rw [← List.append_assoc, ← List.append_assoc, eraseDups_concat, eraseDups_concat, ih]
    simp only [hmem]

/-- Nor does it matter whether repetitions are left out of a part before. -/
theorem eraseDups_append_eraseDups (l as : List α) :
    (l ++ as.eraseDups).eraseDups = (l ++ as).eraseDups := by
  induction as using List.reverseRecOn with
  | nil => rfl
  | append_singleton as a ih =>
    rw [eraseDups_concat, ← List.append_assoc, eraseDups_concat]
    by_cases ha : a ∈ as
    · rw [if_pos ha, if_pos (List.mem_append_right l ha), ih]
    · have hmem : a ∈ l ++ as.eraseDups ↔ a ∈ l ++ as := by
        rw [List.mem_append, List.mem_append, List.mem_eraseDups]
      rw [if_neg ha, ← List.append_assoc, eraseDups_concat, ih]
      simp only [hmem]

/-- A list is told from the parts of it, each without its repetitions. -/
theorem eraseDups_flatMap_eraseDups {γ : Type} (f : γ → List α) (l : List γ) :
    (l.flatMap fun b => (f b).eraseDups).eraseDups = (l.flatMap f).eraseDups := by
  induction l using List.reverseRecOn with
  | nil => rfl
  | append_singleton l b ih =>
    rw [List.flatMap_append, List.flatMap_append, List.flatMap_singleton, List.flatMap_singleton]
    calc ((l.flatMap fun b => (f b).eraseDups) ++ (f b).eraseDups).eraseDups
      _ = ((l.flatMap fun b => (f b).eraseDups) ++ f b).eraseDups := eraseDups_append_eraseDups ..
      _ = (l.flatMap f ++ f b).eraseDups := eraseDups_append_congr ih (f b)

/-- Members can be picked before or after repetitions are left out. -/
theorem eraseDups_filter (p : α → Bool) (l : List α) :
    (l.filter p).eraseDups = l.eraseDups.filter p := by
  induction l using List.reverseRecOn with
  | nil => rfl
  | append_singleton l a ih =>
    rw [List.filter_append, eraseDups_concat]
    by_cases hp : p a
    · have hlast : [a].filter p = [a] := List.filter_cons_of_pos hp
      have hmem : a ∈ l.filter p ↔ a ∈ l := by rw [List.mem_filter, and_iff_left hp]
      rw [hlast, eraseDups_concat]
      simp only [hmem]
      split_ifs
      · exact ih
      · rw [List.filter_append, hlast, ih]
    · have hlast : [a].filter p = [] := List.filter_cons_of_neg hp
      rw [hlast, List.append_nil, ih]
      split_ifs
      · rfl
      · rw [List.filter_append, hlast, List.append_nil]

theorem eraseDups_eq_nil_iff {as : List α} : as.eraseDups = [] ↔ as = [] := by
  simp only [List.eq_nil_iff_forall_not_mem, List.mem_eraseDups]

/-- Members of `list` have been repeated after their first places. -/
inductive Repeats {α : Type} (list : List α) : List α → Prop where
  | refl : Repeats list list
  | again {before after : List α} {a : α} (h : Repeats list (before ++ after))
      (ha : a ∈ before) : Repeats list (before ++ a :: after)

/-- Without the repetitions the list is the same. -/
theorem Repeats.eraseDups_eq {list repeated : List α} (h : Repeats list repeated) :
    list.eraseDups = repeated.eraseDups := by
  induction h with
  | refl => rfl
  | @again before after a _ ha ih =>
    have hagain : before.eraseDups = (before ++ [a]).eraseDups := by
      rw [eraseDups_concat, if_pos ha]
    rw [ih, eraseDups_append_congr hagain, List.append_assoc, List.singleton_append]

theorem idxOf_map {f : α → β} (hf : f.Injective) (l : List α) (a : α) :
    (l.map f).idxOf (f a) = l.idxOf a := by
  induction l with
  | nil => rfl
  | cons b l ih =>
    rw [List.map_cons, List.idxOf_cons, List.idxOf_cons, ih]
    by_cases hb : b = a
    · rw [hb, beq_self_eq_true, beq_self_eq_true]
    · have hfb : f b ≠ f a := fun h => hb (hf h)
      rw [beq_false_of_ne hb, beq_false_of_ne hfb]

/-- Different names for different members make no difference. -/
theorem FirstSeen.map {seen kept : List α} {f : α → β} (h : FirstSeen seen kept)
    (hf : f.Injective) : FirstSeen (seen.map f) (kept.map f) := by
  refine ⟨fun b => by simp [h.mem_iff], List.pairwise_map.2 (h.ordered.imp fun hlt => ?_)⟩
  rwa [idxOf_map hf, idxOf_map hf]

end LogForwarding
