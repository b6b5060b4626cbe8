/-
# Expansion with marks

One who meets an element has to know whether its expansion is under way, for
then there is a cycle, or has ended, for then there is a text. Marks can tell
this: an element that has been met is marked as open or as finished. The open
names and the finished texts stand beside the marks, and an expansion changes
all three, again and again, with other expansions in between.

An expansion that begins with the three in step (`Expansion.InStep`) leaves
them so. The marks then tell nothing that the open names and the texts do not
tell, and `Registry.expand`, which goes without them, comes to the same.

Key definitions: `Mark`, `Expansion`, `Registry.expandMarked`,
`Registry.documentMarked`, `Expansion.InStep`, `Expansion.Result.Completes`.
Key theorems: `Expansion.InStep.length_opened_le`,
`Registry.expandMarked_passes`, `Registry.completes_of_expandMarked`,
`Registry.expand_eq_map_plain`, `Registry.documentMarked_eq`.
-/
import LogForwarding.Expansion
import LogForwarding.Proofs.FirstFault
import Mathlib.Data.List.Perm.Subperm

namespace LogForwarding

/-- How far the expansion of an element has come. -/
inductive Mark where
  /-- It is under way. -/
  | opened
  /-- It has ended. -/
  | finished
  deriving DecidableEq, Repr

/-- What expansions share that follow each other or lie within each other. -/
structure Expansion where
  /-- The marks of the elements that have been met. -/
  marks : Std.ExtTreeMap String Mark
  /-- The names that are open, from the innermost outwards. -/
  opened : List String
  /-- The finished texts. -/
  texts : Texts

namespace Expansion

/-- Nothing has been expanded. -/
def fresh : Expansion := ⟨∅, [], ∅⟩

/-- The element is marked as open. -/
def IsOpen (x : Expansion) (name : String) : Prop := x.marks[name]? = some .opened

instance (x : Expansion) (name : String) : Decidable (x.IsOpen name) :=
  inferInstanceAs (Decidable (_ = _))

/-- The element is marked as finished. -/
def IsFinished (x : Expansion) (name : String) : Prop := x.marks[name]? = some .finished

/-- The text of an element that is marked as finished. Nothing in the types says that there is
one. -/
def finished? (x : Expansion) (name : String) : Option String :=
  match x.marks[name]? with
  | some .finished => x.texts[name]?
  | _ => none

/-- The expansion of `name` begins. -/
def enter (x : Expansion) (name : String) : Expansion :=
  { x with marks := x.marks.insert name .opened, opened := name :: x.opened }

/-- The innermost expansion ends. It has been that of `name`, and `text` is what it made. -/
def leave (x : Expansion) (name text : String) : Expansion where
  marks := x.marks.insert name .finished
  opened := x.opened.tail
  texts := x.texts.insert name text

variable {x : Expansion} {name m text : String}

theorem getElem?_insert_eq_some_iff {α : Type} {map : Std.ExtTreeMap String α} {a b : α} :
    (map.insert name a)[m]? = some b ↔ m = name ∧ a = b ∨ m ≠ name ∧ map[m]? = some b := by
  rw [Std.ExtTreeMap.getElem?_insert]
  by_cases h : name = m
  · simp [h]
  · simp [h, Ne.symm h]

@[simp] theorem isOpen_enter : (x.enter name).IsOpen m ↔ m = name ∨ x.IsOpen m := by
  simp only [IsOpen, enter, getElem?_insert_eq_some_iff]
  tauto

@[simp] theorem isFinished_enter : (x.enter name).IsFinished m ↔ m ≠ name ∧ x.IsFinished m := by
  simp [IsFinished, enter, getElem?_insert_eq_some_iff]

@[simp] theorem isOpen_leave : (x.leave name text).IsOpen m ↔ m ≠ name ∧ x.IsOpen m := by
  simp [IsOpen, leave, getElem?_insert_eq_some_iff]

@[simp] theorem isFinished_leave :
    (x.leave name text).IsFinished m ↔ m = name ∨ x.IsFinished m := by
  simp only [IsFinished, leave, getElem?_insert_eq_some_iff]
  tauto

theorem finished?_eq_some_iff :
    x.finished? name = some text ↔ x.IsFinished name ∧ x.texts[name]? = some text := by
  unfold finished? IsFinished
  split <;> simp_all

theorem opened_leave {outer : List String} (h : x.opened = name :: outer) :
    (x.leave name text).opened = outer := congrArg List.tail h

@[simp] theorem mem_texts_leave : m ∈ (x.leave name text).texts ↔ m = name ∨ m ∈ x.texts := by
  rw [eq_comm]
  simp only [leave, Std.ExtTreeMap.mem_insert, Std.LawfulEqCmp.compare_eq_iff_eq]

theorem mem_texts_of_getElem? (h : x.texts[name]? = some text) : name ∈ x.texts :=
  Std.ExtTreeMap.mem_iff_isSome_getElem?.2 (Option.isSome_of_mem h)

/-- The names that are marked as open. -/
def openNames (x : Expansion) : List String := x.marks.keys.filter fun name => x.IsOpen name

@[simp] theorem mem_openNames : name ∈ x.openNames ↔ x.IsOpen name := by
  simp only [openNames, List.mem_filter, Std.ExtTreeMap.mem_keys, decide_eq_true_eq,
    and_iff_right_iff_imp]
  intro h
  exact Std.ExtTreeMap.mem_iff_isSome_getElem?.2 (Option.isSome_of_mem h)

/-- What an expansion that begins with `x` can end with. That the marks for open elements are
back, whatever they have been, is why expansions come to an end. -/
structure Result (x : Expansion) where
  /-- What has been made. -/
  text : String
  /-- What has been expanded then. -/
  after : Expansion
  /-- The same elements are marked as open. -/
  isOpen_iff : ∀ name, after.IsOpen name ↔ x.IsOpen name

namespace Result

/-- There is nothing to expand. -/
def unchanged (x : Expansion) (text : String) : x.Result := ⟨text, x, fun _ => Iff.rfl⟩

/-- Text in front of what has been made. -/
def prepend (pre : String) (made : x.Result) : x.Result := { made with text := pre ++ made.text }

/-- The text of an embedded element in front of what has been made after it. -/
def followedBy (child : x.Result) (made : child.after.Result) : x.Result where
  text := Text.trimEnd '\n' child.text ++ made.text
  after := made.after
  isOpen_iff name := (made.isOpen_iff name).trans (child.isOpen_iff name)

theorem isOpen_leave_iff (ho : ¬ x.IsOpen name) (made : (x.enter name).Result) (m : String) :
    (made.after.leave name made.text).IsOpen m ↔ x.IsOpen m := by
  rw [isOpen_leave, made.isOpen_iff, isOpen_enter]
  constructor
  · rintro ⟨hne, hm⟩
    exact hm.resolve_left hne
  · intro hm
    exact ⟨fun heq => ho (heq ▸ hm), .inr hm⟩

/-- The template of the element `name` has been filled. -/
def leave (ho : ¬ x.IsOpen name) (made : (x.enter name).Result) : x.Result where
  text := made.text
  after := made.after.leave name made.text
  isOpen_iff := isOpen_leave_iff ho made

/-- The text, and the finished texts. -/
def plain (made : x.Result) : String × Texts := (made.text, made.after.texts)

end Result

end Expansion

open Expansion

namespace Registry

/-- How many registered elements are not marked as open. -/
def unmarked (r : Registry) (x : Expansion) : Nat := r.unopened x.openNames

theorem unmarked_enter_lt {r : Registry} {x : Expansion} {name : String}
    (hr : name ∈ r.names) (ho : ¬ x.IsOpen name) : r.unmarked (x.enter name) < r.unmarked x := by
  have hlt := unopened_cons_lt hr (mt mem_openNames.1 ho)
  simpa [unmarked, unopened] using hlt

/-- What follows an embedded element is less than what begins with it. -/
theorem decreases_after {r : Registry} {x : Expansion} (child : x.Result) (rest : List Segment) :
    Prod.Lex (· < ·) (· < ·) (r.unmarked child.after, rest.length)
      (r.unmarked x, rest.length + 1) := by
  have hsame : r.unmarked child.after = r.unmarked x := by
    simp only [unmarked, unopened, mem_openNames, child.isOpen_iff]
  rw [hsame]
  exact .right _ (Nat.lt_succ_self _)

mutual

/-- The text of the element `name`. An element that is marked as finished and has no text would be
expanded anew. -/
def expandMarked (r : Registry) (x : Expansion) (name : String) : Except Fault x.Result :=
  match x.finished? name with
  | some text => .ok (.unchanged x text)
  | none =>
    if ho : x.IsOpen name then .error (.templateCycle (name :: x.opened).reverse)
    else
      match _hr : r.get? name with
      | none => .error (.unknownElement name)
      | some element => do
        let made ← r.fillMarked (x.enter name) element element.segments
        return made.leave ho
termination_by (r.unmarked x, 0)
decreasing_by exact .left _ _ (unmarked_enter_lt (mem_names.2 (by simp [_hr])) ho)

/-- The text of some segments of the template of `element`, from left to right. -/
def fillMarked (r : Registry) (x : Expansion) (element : Element) :
    List Segment → Except Fault x.Result
  | [] => .ok (.unchanged x "")
  | .text literal :: rest => do
    let made ← r.fillMarked x element rest
    return made.prepend literal
  | .field key :: rest => do
    let value ← element.value key
    let made ← r.fillMarked x element rest
    return made.prepend value
  | .embed slot :: rest => do
    let name ← element.value slot
    let child ← r.expandMarked x name
    let made ← r.fillMarked child.after element rest
    return child.followedBy made
termination_by segments => (r.unmarked x, segments.length)
decreasing_by
  · exact .right _ (Nat.lt_succ_self _)
  · exact .right _ (Nat.lt_succ_self _)
  · exact .right _ (Nat.succ_pos _)
  · exact decreases_after child rest

end

/-- The texts of the elements `names`, in order; what one of them finished serves the next. -/
def expandAllMarked (r : Registry) : Expansion → List String → Except Fault (List String)
  | _, [] => .ok []
  | x, name :: rest => do
    let made ← r.expandMarked x name
    let others ← r.expandAllMarked made.after rest
    return made.text :: others

/-- The document of the elements `names`, in order. -/
def documentMarked (r : Registry) (names : List String) : Except Fault String :=
  (r.expandAllMarked fresh names).map joinBlocks

/-- Who calls for `name` makes the expansion of the element `e` begin. -/
structure Begins (r : Registry) (x : Expansion) (name : String) (e : Element) : Prop where
  unfinished : x.finished? name = none
  unopened : ¬ x.IsOpen name
  found : r.get? name = some e

end Registry

/-! ### In step -/

/-- The marks, the open names and the finished texts say the same. -/
structure Expansion.InStep (x : Expansion) (r : Registry) : Prop where
  /-- No name is open twice. -/
  nodup : x.opened.Nodup
  /-- What is open is registered. -/
  registered : ∀ name ∈ x.opened, name ∈ r.names
  /-- The open names are those that are marked as open. -/
  isOpen_iff : ∀ name, x.IsOpen name ↔ name ∈ x.opened
  /-- There is a text of those that are marked as finished. -/
  isFinished_iff : ∀ name, x.IsFinished name ↔ name ∈ x.texts

namespace Expansion.InStep

variable {r : Registry} {x : Expansion} {name : String} {e : Element}

theorem fresh (r : Registry) : Expansion.fresh.InStep r := by
  constructor <;> simp [Expansion.fresh, IsOpen, IsFinished]

/-- A text can be found without a look at the marks. -/
theorem finished?_eq (h : x.InStep r) (name : String) : x.finished? name = x.texts[name]? := by
  ext text
  rw [finished?_eq_some_iff, h.isFinished_iff]
  exact and_iff_right_of_imp mem_texts_of_getElem?

theorem exists_finished? (h : x.InStep r) (hn : x.IsFinished name) :
    ∃ text, x.finished? name = some text := by
  rw [h.finished?_eq]
  exact Option.isSome_iff_exists.1
    (Std.ExtTreeMap.mem_iff_isSome_getElem?.1 ((h.isFinished_iff name).1 hn))

theorem notMem_texts (h : x.InStep r) (ho : x.IsOpen name) : name ∉ x.texts := by
  rw [← h.isFinished_iff]
  intro hf
  cases Option.some.inj (ho.symm.trans hf)

theorem enter (h : x.InStep r) (hb : r.Begins x name e) : (x.enter name).InStep r where
  nodup := List.nodup_cons.2 ⟨mt (h.isOpen_iff name).2 hb.unopened, h.nodup⟩
  registered := List.forall_mem_cons.2
    ⟨Registry.mem_names.2 (Option.isSome_of_mem hb.found), h.registered⟩
  isOpen_iff m := by
    rw [isOpen_enter, h.isOpen_iff]
    exact List.mem_cons.symm
  isFinished_iff m := by
    have hname : name ∉ x.texts := by
      have hnone := hb.unfinished
      rw [h.finished?_eq] at hnone
      simpa using hnone
    rw [isFinished_enter, h.isFinished_iff]
    refine and_iff_right_of_imp ?_
    rintro hm rfl
    exact hname hm

theorem leave (h : x.InStep r) {outer : List String} (ho : x.opened = name :: outer)
    (text : String) : (x.leave name text).InStep r := by
  have hnodup := h.nodup
  have hregistered := h.registered
  rw [ho] at hnodup hregistered
  obtain ⟨hname, houter⟩ := List.nodup_cons.1 hnodup
  refine ⟨?_, ?_, fun m => ?_, fun m => ?_⟩
  · rwa [opened_leave ho]
  · rw [opened_leave ho]
    exact (List.forall_mem_cons.1 hregistered).2
  · rw [isOpen_leave, h.isOpen_iff, ho, opened_leave ho, List.mem_cons]
    constructor
    · rintro ⟨hne, hm⟩
      exact hm.resolve_left hne
    · intro hm
      exact ⟨fun heq => hname (heq ▸ hm), .inr hm⟩
  · rw [isFinished_leave, h.isFinished_iff, mem_texts_leave]

/-- No more names are open than there are elements. -/
theorem length_opened_le (h : x.InStep r) : x.opened.length ≤ r.size :=
  calc x.opened.length
    _ ≤ r.names.length := (h.nodup.subperm h.registered).length_le
    _ = r.size := Std.ExtTreeMap.length_keys

end Expansion.InStep

/-! ### One expansion -/

namespace Expansion.Result

/-- All is in step after the expansion, the same names are open as before, and the finished texts
are still there. -/
structure Passes {x : Expansion} (made : x.Result) (r : Registry) : Prop where
  inStep : made.after.InStep r
  opened : made.after.opened = x.opened
  keeps : ∀ name text : String, x.texts[name]? = some text → made.after.texts[name]? = some text

/-- What is so after a successful expansion of `name`. -/
structure Completes {x : Expansion} (made : x.Result) (r : Registry) (name : String) : Prop
    extends made.Passes r where
  /-- The same elements are marked as open as before. -/
  isOpen_iff : ∀ m, made.after.IsOpen m ↔ x.IsOpen m
  /-- The element is marked as finished. -/
  isFinished : made.after.IsFinished name
  /-- What has been made is the finished text of the element. -/
  written : made.after.texts[name]? = some made.text

namespace Passes

variable {r : Registry} {x : Expansion} {name : String}

theorem unchanged (h : x.InStep r) (text : String) : (Result.unchanged x text).Passes r :=
  ⟨h, rfl, fun _ _ => id⟩

theorem prepend {made : x.Result} (h : made.Passes r) (pre : String) :
    (made.prepend pre).Passes r :=
  ⟨h.inStep, h.opened, h.keeps⟩

theorem followedBy {child : x.Result} {made : child.after.Result} (hc : child.Passes r)
    (h : made.Passes r) : (child.followedBy made).Passes r :=
  ⟨h.inStep, h.opened.trans hc.opened,
    fun name text ht => h.keeps name text (hc.keeps name text ht)⟩

theorem leave {made : (x.enter name).Result} (ho : ¬ x.IsOpen name) (h : made.Passes r) :
    (made.leave ho).Passes r := by
  have hopen : made.after.IsOpen name := (made.isOpen_iff name).2 (isOpen_enter.2 (.inl rfl))
  refine ⟨h.inStep.leave h.opened made.text, opened_leave h.opened, fun m text ht => ?_⟩
  have hkept := h.keeps m text ht
  -- An element that is still open has no text yet, so its text takes the place of none.
  have hne : m ≠ name := by
    rintro rfl
    exact h.inStep.notMem_texts hopen (mem_texts_of_getElem? hkept)
  exact getElem?_insert_eq_some_iff.2 (.inr ⟨hne, hkept⟩)

end Passes

end Expansion.Result

namespace Registry

variable {r : Registry} {x : Expansion} {name : String} {e : Element}

theorem expandMarked_of_finished {text : String} (h : x.finished? name = some text) :
    r.expandMarked x name = .ok (.unchanged x text) := by
  rw [expandMarked, h]

theorem expandMarked_of_isOpen (h : x.finished? name = none) (ho : x.IsOpen name) :
    r.expandMarked x name = .error (.templateCycle (name :: x.opened).reverse) := by
  rw [expandMarked, h]
  exact dif_pos ho

theorem expandMarked_of_none (h : x.finished? name = none) (ho : ¬ x.IsOpen name)
    (hr : r.get? name = none) : r.expandMarked x name = .error (.unknownElement name) := by
  rw [expandMarked, h]
  dsimp only
  rw [dif_neg ho]
  split <;> simp_all

theorem Begins.expandMarked_eq (h : r.Begins x name e) :
    r.expandMarked x name =
      (r.fillMarked (x.enter name) e e.segments).map (Result.leave h.unopened) := by
  rw [expandMarked, h.unfinished]
  dsimp only
  rw [dif_neg h.unopened]
  split
  · rename_i hnone
    rw [h.found] at hnone
    cases hnone
  · rename_i e' hsome
    rw [h.found] at hsome
    cases hsome
    cases r.fillMarked (x.enter name) e e.segments <;> rfl

theorem Begins.unmarked_lt (h : r.Begins x name e) : r.unmarked (x.enter name) < r.unmarked x :=
  unmarked_enter_lt (mem_names.2 (Option.isSome_of_mem h.found)) h.unopened

/-- What can be found when an element is called for. -/
theorem expandMarked_cases (r : Registry) (x : Expansion) (name : String) :
    (∃ text, x.finished? name = some text) ∨ x.finished? name = none ∧ x.IsOpen name ∨
      x.finished? name = none ∧ ¬ x.IsOpen name ∧ r.get? name = none ∨ ∃ e, r.Begins x name e := by
  cases hf : x.finished? name with
  | some text => exact .inl ⟨text, rfl⟩
  | none =>
    by_cases ho : x.IsOpen name
    · exact .inr (.inl ⟨rfl, ho⟩)
    cases hr : r.get? name with
    | none => exact .inr (.inr (.inl ⟨rfl, ho, rfl⟩))
    | some e => exact .inr (.inr (.inr ⟨e, hf, ho, hr⟩))

/-- An expansion succeeds at once, or when the template of the element has been filled. -/
theorem exists_of_expandMarked_eq_ok {made : x.Result} (h : r.expandMarked x name = .ok made) :
    (∃ text, x.finished? name = some text ∧ made = .unchanged x text) ∨
      ∃ e, ∃ hb : r.Begins x name e, ∃ inner,
        r.fillMarked (x.enter name) e e.segments = .ok inner ∧ made = inner.leave hb.unopened := by
  rcases r.expandMarked_cases x name with ⟨text, hf⟩ | ⟨hf, ho⟩ | ⟨hf, ho, hr⟩ | ⟨e, hb⟩
  · rw [expandMarked_of_finished hf] at h
    cases h
    exact .inl ⟨text, hf, rfl⟩
  · rw [expandMarked_of_isOpen hf ho] at h
    cases h
  · rw [expandMarked_of_none hf ho hr] at h
    cases h
  · rw [hb.expandMarked_eq, map_eq_ok_iff] at h
    obtain ⟨inner, hinner, rfl⟩ := h
    exact .inr ⟨e, hb, inner, hinner, rfl⟩

mutual

/-- An expansion that begins with all in step ends so. -/
theorem expandMarked_passes {r : Registry} {x : Expansion} {name : String} {made : x.Result}
    (h : x.InStep r) (hm : r.expandMarked x name = .ok made) : made.Passes r := by
  rcases exists_of_expandMarked_eq_ok hm with ⟨text, _, rfl⟩ | ⟨e, hb, inner, hinner, rfl⟩
  · exact .unchanged h text
  · have hlt := hb.unmarked_lt
    exact (fillMarked_passes (h.enter hb) hinner).leave hb.unopened
termination_by (r.unmarked x, 0)

/-- So does the filling of a template, with all the expansions that it needs. -/
theorem fillMarked_passes {r : Registry} {x : Expansion} {e : Element} {segments : List Segment}
    {made : x.Result} (h : x.InStep r) (hm : r.fillMarked x e segments = .ok made) :
    made.Passes r := by
  match segments with
  | [] =>
    rw [fillMarked] at hm
    cases hm
    exact .unchanged h ""
  | .text literal :: rest =>
    rw [fillMarked] at hm
    obtain ⟨inner, hinner, heq⟩ := bind_eq_ok_iff.1 hm
    cases heq
    exact (fillMarked_passes h hinner).prepend literal
  | .field key :: rest =>
    rw [fillMarked] at hm
    obtain ⟨value, _, hm⟩ := bind_eq_ok_iff.1 hm
    obtain ⟨inner, hinner, heq⟩ := bind_eq_ok_iff.1 hm
    cases heq
    exact (fillMarked_passes h hinner).prepend value
  | .embed slot :: rest =>
    rw [fillMarked] at hm
    obtain ⟨name, _, hm⟩ := bind_eq_ok_iff.1 hm
    obtain ⟨child, hchild, hm⟩ := bind_eq_ok_iff.1 hm
    obtain ⟨inner, hinner, heq⟩ := bind_eq_ok_iff.1 hm
    cases heq
    have hc := expandMarked_passes h hchild
    exact hc.followedBy (fillMarked_passes hc.inStep hinner)
termination_by (r.unmarked x, segments.length)
decreasing_by
  · exact .right _ (Nat.lt_succ_self _)
  · exact .right _ (Nat.lt_succ_self _)
  · exact .right _ (Nat.succ_pos _)
  · exact decreases_after child rest

end

theorem completes_of_expandMarked {made : x.Result} (h : x.InStep r)
    (hm : r.expandMarked x name = .ok made) : made.Completes r name := by
  have hp := expandMarked_passes h hm
  rcases exists_of_expandMarked_eq_ok hm with ⟨text, hf, rfl⟩ | ⟨e, hb, inner, _, rfl⟩
  · obtain ⟨hfinished, htext⟩ := finished?_eq_some_iff.1 hf
    exact ⟨hp, fun _ => Iff.rfl, hfinished, htext⟩
  · exact ⟨hp, Result.isOpen_iff _, isFinished_leave.2 (.inl rfl),
      getElem?_insert_eq_some_iff.2 (.inl ⟨rfl, rfl⟩)⟩

/-! ### Without the marks -/

section Unmarked

variable {opened : List String} {texts : Texts}

theorem expand_of_getElem? {text : String} (h : texts[name]? = some text) :
    r.expand opened texts name = .ok (text, texts) := by
  rw [expand, h]

theorem expand_of_mem (h : texts[name]? = none) (ho : name ∈ opened) :
    r.expand opened texts name = .error (.templateCycle (name :: opened).reverse) := by
  rw [expand, h]
  exact dif_pos ho

theorem expand_of_none (h : texts[name]? = none) (ho : name ∉ opened) (hr : r.get? name = none) :
    r.expand opened texts name = .error (.unknownElement name) := by
  rw [expand, h]
  dsimp only
  rw [dif_neg ho]
  split <;> simp_all

theorem expand_of_some (h : texts[name]? = none) (ho : name ∉ opened) (hr : r.get? name = some e) :
    r.expand opened texts name = (r.fill (name :: opened) texts e e.segments).map
      fun (text, texts) => (text, texts.insert name text) := by
  rw [expand, h]
  dsimp only
  rw [dif_neg ho]
  split
  · rename_i hnone
    rw [hr] at hnone
    cases hnone
  · rename_i e' hsome
    rw [hr] at hsome
    cases hsome
    cases r.fill (name :: opened) texts e e.segments <;> rfl

end Unmarked

mutual

/-- An expansion that begins with all in step comes to the same without the marks. -/
theorem expand_eq_map_plain {r : Registry} {x : Expansion} (h : x.InStep r) (name : String) :
    r.expand x.opened x.texts name = (r.expandMarked x name).map Result.plain := by
  have hf := h.finished?_eq name
  have ho := h.isOpen_iff name
  rcases r.expandMarked_cases x name with ⟨text, ht⟩ | ⟨ht, hopen⟩ | ⟨ht, hopen, hr⟩ | ⟨e, hb⟩
  · rw [expandMarked_of_finished ht, expand_of_getElem? (hf.symm.trans ht)]
    rfl
  · rw [expandMarked_of_isOpen ht hopen, expand_of_mem (hf.symm.trans ht) (ho.1 hopen)]
    rfl
  · rw [expandMarked_of_none ht hopen hr, expand_of_none (hf.symm.trans ht) (mt ho.2 hopen) hr]
    rfl
  · have hlt := hb.unmarked_lt
    have hfill : r.fill (name :: x.opened) x.texts e e.segments = _ :=
      fill_eq_map_plain (h.enter hb) e e.segments
    rw [hb.expandMarked_eq,
      expand_of_some (hf.symm.trans hb.unfinished) (mt ho.2 hb.unopened) hb.found, hfill]
    cases r.fillMarked (x.enter name) e e.segments <;> rfl
termination_by (r.unmarked x, 0)

/-- So does the filling of a template. -/
theorem fill_eq_map_plain {r : Registry} {x : Expansion} (h : x.InStep r) (e : Element)
    (segments : List Segment) :
    r.fill x.opened x.texts e segments = (r.fillMarked x e segments).map Result.plain := by
  match segments with
  | [] =>
    rw [fill, fillMarked]
    rfl
  | .text literal :: rest =>
    rw [fill, fillMarked, fill_eq_map_plain h e rest]
    cases r.fillMarked x e rest <;> rfl
  | .field key :: rest =>
    rw [fill, fillMarked, fill_eq_map_plain h e rest]
    cases e.value key with
    | error fault => rfl
    | ok value => cases r.fillMarked x e rest <;> rfl
  | .embed slot :: rest =>
    rw [fill, fillMarked]
    cases e.value slot with
    | error fault => rfl
    | ok name =>
      show (r.expand x.opened x.texts name >>= _) =
        Except.map Result.plain (r.expandMarked x name >>= _)
      rw [expand_eq_map_plain h name]
      cases hm : r.expandMarked x name with
      | error fault => rfl
      | ok child =>
        -- The rest begins with the names open that were open before the child.
        have hc := expandMarked_passes h hm
        have hrest := fill_eq_map_plain hc.inStep e rest
        rw [hc.opened] at hrest
        show (r.fill x.opened child.after.texts e rest >>= _) =
          Except.map Result.plain (r.fillMarked child.after e rest >>= _)
        rw [hrest]
        cases r.fillMarked child.after e rest <;> rfl
termination_by (r.unmarked x, segments.length)
decreasing_by
  · exact .right _ (Nat.lt_succ_self _)
  · exact .right _ (Nat.lt_succ_self _)
  · exact .right _ (Nat.succ_pos _)
  · exact decreases_after child rest

end

/-- Elements that are called for from outside have the same texts without the marks. -/
theorem expandAllMarked_eq (h : x.InStep r) (ho : x.opened = []) (names : List String) :
    r.expandAllMarked x names = r.expandAll x.texts names := by
  induction names generalizing x with
  | nil => rfl
  | cons name rest ih =>
    have hplain := expand_eq_map_plain h name
    rw [ho] at hplain
    rw [expandAllMarked, expandAll, hplain]
    cases hm : r.expandMarked x name with
    | error fault => rfl
    | ok made =>
      have hp := expandMarked_passes h hm
      show (r.expandAllMarked made.after rest >>= _) = (r.expandAll made.after.texts rest >>= _)
      rw [ih hp.inStep (hp.opened.trans ho)]

theorem documentMarked_eq (r : Registry) (names : List String) :
    r.documentMarked names = r.document names := by
  rw [documentMarked, expandAllMarked_eq (.fresh r) rfl]
  rfl

end Registry

end LogForwarding
