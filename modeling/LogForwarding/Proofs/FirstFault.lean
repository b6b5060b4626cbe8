/-
# Steps that stop at the first fault

Most of the library runs one step after the other and gives up at the first
fault. What such a run has done follows from its steps: it succeeds if every
step does, and otherwise its fault is that of the first step that fails.

Key theorems: `bind_eq_ok_iff`, `bind_eq_error_iff`, `bind_congr_ok`,
`mapM_concat`, `mapM_map_right`, `mapM_eq_ok_iff`, `mapM_eq_error_iff`,
`exists_mapM_eq_ok_iff`, `exists_mapM_eq_error_iff`, `foldlM_eq_error_iff`,
`exists_mapM_of_forall₂`.
-/
import Mathlib.Data.List.Forall2

namespace LogForwarding

section Steps

variable {ε α β : Type}

theorem bind_eq_ok_iff {x : Except ε α} {f : α → Except ε β} {b : β} :
    (x >>= f) = .ok b ↔ ∃ a, x = .ok a ∧ f a = .ok b := by
  cases x <;> simp [bind, Except.bind]

theorem bind_eq_error_iff {x : Except ε α} {f : α → Except ε β} {e : ε} :
    (x >>= f) = .error e ↔ x = .error e ∨ ∃ a, x = .ok a ∧ f a = .error e := by
  cases x <;> simp [bind, Except.bind]

/-- What comes after a step matters only where the step succeeds. -/
theorem bind_congr_ok {x : Except ε α} {f g : α → Except ε β} (h : ∀ a, x = .ok a → f a = g a) :
    (x >>= f) = x >>= g := by
  cases x with
  | error e => rfl
  | ok a => exact h a rfl

theorem map_eq_ok_iff {x : Except ε α} {f : α → β} {b : β} :
    x.map f = .ok b ↔ ∃ a, x = .ok a ∧ f a = b := by
  cases x <;> simp [Except.map]

theorem map_eq_error_iff {x : Except ε α} {f : α → β} {e : ε} :
    x.map f = .error e ↔ x = .error e := by
  cases x <;> simp [Except.map]

theorem exists_map_eq_ok_iff {x : Except ε α} {f : α → β} :
    (∃ b, x.map f = .ok b) ↔ ∃ a, x = .ok a := by
  cases x <;> simp [Except.map]

/-- A run that does not fail succeeds. -/
theorem exists_eq_ok_iff {x : Except ε α} : (∃ a, x = .ok a) ↔ ∀ e, x ≠ .error e := by
  cases x <;> simp

/-- A run over a list depends on what each of its steps does. -/
theorem mapM_congr {f g : α → Except ε β} {xs : List α} (h : ∀ x ∈ xs, f x = g x) :
    xs.mapM f = xs.mapM g := by
  induction xs with
  | nil => rfl
  | cons x xs ih =>
    obtain ⟨hx, hxs⟩ := List.forall_mem_cons.1 h
    rw [List.mapM_cons, List.mapM_cons, hx, ih hxs]

/-- The last step of a run over a list comes after all others. -/
theorem mapM_concat (f : α → Except ε β) (xs : List α) (x : α) :
    (xs ++ [x]).mapM f = do
      let ys ← xs.mapM f
      let y ← f x
      return ys ++ [y] := by
  rw [List.mapM_append, List.mapM_cons, List.mapM_nil]
  cases xs.mapM f with
  | error e => rfl
  | ok ys => cases f x <;> rfl

/-- What is made of each result can be made of all results at the end. -/
theorem mapM_map_right {γ : Type} {f : α → Except ε β} {g : β → γ} (xs : List α) :
    xs.mapM (fun x => (f x).map g) = (xs.mapM f).map (List.map g) := by
  induction xs with
  | nil => rfl
  | cons x xs ih =>
    rw [List.mapM_cons, List.mapM_cons, ih]
    cases f x with
    | error e => rfl
    | ok y => cases xs.mapM f <;> rfl

/-- A run over a list succeeds with the results of its steps. -/
theorem mapM_eq_ok_iff {f : α → Except ε β} {xs : List α} {ys : List β} :
    xs.mapM f = .ok ys ↔ List.Forall₂ (fun x y => f x = .ok y) xs ys := by
  induction xs generalizing ys with
  | nil => cases ys <;> simp [pure, Except.pure]
  | cons x xs ih =>
    rw [List.mapM_cons, bind_eq_ok_iff]
    constructor
    · rintro ⟨y, hy, h⟩
      obtain ⟨rest, hrest, h⟩ := bind_eq_ok_iff.1 h
      cases h
      exact .cons hy (ih.1 hrest)
    · intro h
      obtain ⟨y, rest, hy, hrest, rfl⟩ := List.forall₂_cons_left_iff.1 h
      exact ⟨y, hy, bind_eq_ok_iff.2 ⟨rest, ih.2 hrest, rfl⟩⟩

/-- A run over a list fails with the fault of the first step that fails. -/
theorem mapM_eq_error_iff {f : α → Except ε β} {xs : List α} {e : ε} :
    xs.mapM f = .error e ↔
      ∃ before x after, xs = before ++ x :: after ∧ (∀ b ∈ before, ∃ y, f b = .ok y) ∧
        f x = .error e := by
  induction xs with
  | nil =>
    constructor
    · intro h
      cases h
    · rintro ⟨before, x, after, h, _⟩
      cases before <;> cases h
  | cons x xs ih =>
    rw [List.mapM_cons, bind_eq_error_iff]
    constructor
    · rintro (hx | ⟨y, hy, h⟩)
      · exact ⟨[], x, xs, rfl, by simp, hx⟩
      · rcases bind_eq_error_iff.1 h with h | ⟨_, _, h⟩
        · obtain ⟨before, x', after, rfl, hb, hx'⟩ := ih.1 h
          refine ⟨x :: before, x', after, rfl, ?_, hx'⟩
          exact List.forall_mem_cons.2 ⟨⟨y, hy⟩, hb⟩
        · cases h
    · rintro ⟨before, x', after, h, hb, hx'⟩
      cases before with
      | nil =>
        cases h
        exact .inl hx'
      | cons b before =>
        cases h
        obtain ⟨⟨y, hy⟩, hb⟩ := List.forall_mem_cons.1 hb
        exact .inr ⟨y, hy, bind_eq_error_iff.2 (.inl (ih.2 ⟨before, x', after, rfl, hb, hx'⟩))⟩

/-- A run over a list succeeds if every step does. -/
theorem exists_mapM_eq_ok_iff {f : α → Except ε β} {xs : List α} :
    (∃ ys, xs.mapM f = .ok ys) ↔ ∀ x ∈ xs, ∃ y, f x = .ok y := by
  constructor
  · rintro ⟨ys, h⟩
    induction mapM_eq_ok_iff.1 h with
    | nil => simp
    | cons hy hrest ih => exact List.forall_mem_cons.2 ⟨⟨_, hy⟩, ih (mapM_eq_ok_iff.2 hrest)⟩
  · intro h
    rw [exists_eq_ok_iff]
    intro e he
    obtain ⟨before, x, after, rfl, _, hx⟩ := mapM_eq_error_iff.1 he
    obtain ⟨y, hy⟩ := h x (by simp)
    rw [hx] at hy
    cases hy

/-- A run over a list fails if some step does. -/
theorem exists_mapM_eq_error_iff {f : α → Except ε β} {xs : List α} :
    (∃ e, xs.mapM f = .error e) ↔ ∃ x ∈ xs, ∃ e, f x = .error e := by
  constructor
  · rintro ⟨e, he⟩
    obtain ⟨_, x, _, rfl, _, hx⟩ := mapM_eq_error_iff.1 he
    exact ⟨x, by simp, e, hx⟩
  · rintro ⟨x, hx, e, he⟩
    by_contra hnone
    obtain ⟨y, hy⟩ := exists_mapM_eq_ok_iff.1 (exists_eq_ok_iff.2 (not_exists.1 hnone)) x hx
    rw [he] at hy
    cases hy

/-- A run that carries a state along fails at the first step that fails, and what comes after it
has no part in that. -/
theorem foldlM_eq_error_iff {σ : Type} {f : σ → α → Except ε σ} {s : σ} {xs : List α} {e : ε} :
    xs.foldlM f s = .error e ↔
      ∃ before x after s', xs = before ++ x :: after ∧ before.foldlM f s = .ok s' ∧
        f s' x = .error e := by
  constructor
  · intro h
    induction xs generalizing s with
    | nil => cases h
    | cons x xs ih =>
      rw [List.foldlM_cons] at h
      rcases bind_eq_error_iff.1 h with hx | ⟨middle, hstep, hrest⟩
      · exact ⟨[], x, xs, s, rfl, rfl, hx⟩
      · obtain ⟨before, x', after, s', rfl, hbefore, hx'⟩ := ih hrest
        refine ⟨x :: before, x', after, s', rfl, ?_, hx'⟩
        rw [List.foldlM_cons]
        exact bind_eq_ok_iff.2 ⟨middle, hstep, hbefore⟩
  · rintro ⟨before, x, after, s', rfl, hbefore, hx⟩
    rw [List.foldlM_append]
    refine bind_eq_error_iff.2 (.inr ⟨s', hbefore, ?_⟩)
    rw [List.foldlM_cons]
    exact bind_eq_error_iff.2 (.inl hx)

/-- Where each step succeeds with a result that fits, the results fit together. -/
theorem exists_mapM_of_forall₂ {γ : Type} {f : α → Except ε β} {P : β → γ → Prop} {xs : List α}
    {zs : List γ} (h : List.Forall₂ (fun x z => ∃ y, f x = .ok y ∧ P y z) xs zs) :
    ∃ ys, xs.mapM f = .ok ys ∧ List.Forall₂ P ys zs := by
  induction h with
  | nil => exact ⟨[], rfl, .nil⟩
  | cons hx _ ih =>
    obtain ⟨y, hy, hP⟩ := hx
    obtain ⟨ys, hys, hPs⟩ := ih
    exact ⟨y :: ys, mapM_eq_ok_iff.2 (.cons hy (mapM_eq_ok_iff.1 hys)), .cons hP hPs⟩

/-- Lists that agree member by member have equal images. -/
theorem map_eq_map_of_forall₂ {γ : Type} {f : α → γ} {g : β → γ} {xs : List α} {ys : List β}
    (h : List.Forall₂ (fun x y => f x = g y) xs ys) : xs.map f = ys.map g := by
  rwa [← List.forall₂_eq_eq_eq, List.forall₂_map_left_iff, List.forall₂_map_right_iff]

/-- What stands in the second list has a counterpart in the first. -/
theorem exists_mem_of_forall₂ {R : α → β → Prop} {xs : List α} {ys : List β}
    (h : List.Forall₂ R xs ys) {y : β} (hy : y ∈ ys) : ∃ x ∈ xs, R x y := by
  induction h with
  | nil => cases hy
  | cons hxy _ ih =>
    rcases List.mem_cons.1 hy with rfl | hy
    · exact ⟨_, List.mem_cons_self, hxy⟩
    · obtain ⟨x, hx, hR⟩ := ih hy
      exact ⟨x, List.mem_cons_of_mem _ hx, hR⟩

end Steps

end LogForwarding
