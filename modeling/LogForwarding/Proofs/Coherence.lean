/-
# Elements that may stand together

A name stands for one element. Elements are coherent if those of one name are
equal; coherent elements, and no others, can be registered. The registry then
holds exactly these elements, each under its own name.

Key definitions: `Coherent`, `Registry.Holds`.
Key theorems: `Registry.holds_of_ofRoots`, `Registry.exists_ofRoots_iff`.
-/
import LogForwarding.Proofs.FirstFault
import LogForwarding.Registry

namespace LogForwarding

/-- Elements of one name are equal. -/
def Coherent (es : List Element) : Prop := ∀ a ∈ es, ∀ b ∈ es, a.name = b.name → a = b

theorem Coherent.subset {as bs : List Element} (h : Coherent bs) (hs : as ⊆ bs) : Coherent as :=
  fun a ha b hb => h a (hs ha) b (hs hb)

namespace Element

theorem mem_tree_self (e : Element) : e ∈ e.tree := by
  rw [tree_eq_cons]
  exact List.mem_cons_self

/-- What an embedded element contains is contained in the element that embeds it. -/
theorem tree_subset_of_mem_embeds {e child : Element} (h : child ∈ e.embeds) :
    child.tree ⊆ e.tree := by
  rw [tree_eq_cons e]
  exact fun d hd => List.mem_cons_of_mem e (List.mem_flatMap.2 ⟨child, h, hd⟩)

theorem mem_treeList {es : List Element} {d : Element} :
    d ∈ treeList es ↔ ∃ e ∈ es, d ∈ e.tree := by
  rw [treeList_eq_flatMap, List.mem_flatMap]

end Element

/-! ### Registering -/

namespace Registry

/-- The registered elements are those of the list. -/
def Holds (r : Registry) (es : List Element) : Prop := ∀ e, e ∈ es ↔ r.get? e.name = some e

theorem holds_empty : Registry.Holds ∅ [] := by simp [Holds]

theorem Holds.coherent {r : Registry} {es : List Element} (h : r.Holds es) : Coherent es := by
  intro a ha b hb hab
  have hra := (h a).1 ha
  rw [hab, (h b).1 hb] at hra
  cases hra
  rfl

/-- An element can be added if and only if no other is registered under its name. -/
theorem exists_insert_iff {r : Registry} {e : Element} :
    (∃ r', r.insert e = .ok r') ↔ ∀ kept, r.get? e.name = some kept → kept = e := by
  unfold insert get?
  split
  · rename_i kept hkept
    simp only [hkept, Option.some.injEq, forall_eq']
    split <;> simp_all
  · rename_i hnone
    simp [hnone]

/-- An insertion that is refused has met another element of the name. -/
theorem insert_eq_error_iff {r : Registry} {e : Element} {fault : Fault} :
    r.insert e = .error fault ↔
      (∃ kept, r.get? e.name = some kept ∧ kept ≠ e) ∧ fault = .nameCollision e.name := by
  unfold insert get?
  split
  · rename_i kept hkept
    simp only [hkept, Option.some.injEq, exists_eq_left']
    split <;> simp_all [eq_comm]
  · rename_i hnone
    simp [hnone]

theorem Holds.insert {r r' : Registry} {es : List Element} {e : Element} (h : r.Holds es)
    (hi : r.insert e = .ok r') : r'.Holds (es ++ [e]) := by
  have hkept := exists_insert_iff.1 ⟨r', hi⟩
  intro x
  rw [List.mem_append, List.mem_singleton, get?_insert hi]
  by_cases hname : e.name = x.name
  · rw [if_pos hname, Option.some.injEq]
    constructor
    · rintro (hx | rfl)
      · refine (hkept x ?_).symm
        rw [hname]
        exact (h x).1 hx
      · rfl
    · exact fun hx => .inr hx.symm
  · rw [if_neg hname, ← h x]
    constructor
    · rintro (hx | rfl)
      · exact hx
      · exact absurd rfl hname
    · exact .inl

theorem holds_of_foldlM_insert {r r' : Registry} {before es : List Element} (h : r.Holds before)
    (hf : es.foldlM Registry.insert r = .ok r') : r'.Holds (before ++ es) := by
  induction es generalizing r before with
  | nil =>
    cases hf
    simpa using h
  | cons e rest ih =>
    rw [List.foldlM_cons] at hf
    obtain ⟨middle, hi, hrest⟩ := bind_eq_ok_iff.1 hf
    simpa using ih (h.insert hi) hrest

theorem exists_foldlM_insert {r : Registry} {before es : List Element} (h : r.Holds before)
    (hc : Coherent (before ++ es)) : ∃ r', es.foldlM Registry.insert r = .ok r' := by
  induction es generalizing r before with
  | nil => exact ⟨r, rfl⟩
  | cons e rest ih =>
    have hkept : ∀ kept, r.get? e.name = some kept → kept = e := by
      intro kept hk
      have hname := name_of_get? hk
      have hmem : kept ∈ before := (h kept).2 (by rw [hname]; exact hk)
      exact hc kept (by simp [hmem]) e (by simp) hname
    obtain ⟨middle, hi⟩ := exists_insert_iff.2 hkept
    obtain ⟨r', hr'⟩ := ih (h.insert hi) (by simpa using hc)
    exact ⟨r', by rw [List.foldlM_cons]; exact bind_eq_ok_iff.2 ⟨middle, hi, hr'⟩⟩

/-- The registry of some roots holds the elements of their trees. -/
theorem holds_of_ofRoots {roots : List Element} {r : Registry} (h : ofRoots roots = .ok r) :
    r.Holds (Element.treeList roots) :=
  holds_of_foldlM_insert holds_empty h

/-- Roots can be registered if and only if the elements of their trees are coherent. -/
theorem exists_ofRoots_iff {roots : List Element} :
    (∃ r, ofRoots roots = .ok r) ↔ Coherent (Element.treeList roots) := by
  constructor
  · rintro ⟨r, h⟩
    exact (holds_of_ofRoots h).coherent
  · exact fun h => exists_foldlM_insert holds_empty h

end Registry

end LogForwarding
