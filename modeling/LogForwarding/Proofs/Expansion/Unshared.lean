/-
# Expansion with nothing kept

`Registry.expand` keeps the text of every element it finishes, and takes it
from there when it meets the element again. `Registry.textBelow` is the same
expansion with nothing kept: the text of an element is made from its template
each time. Nobody can tell the two apart. Each kept text is the one that would
be made again (`Registry.Keeps`), because what a finished element embeds is
finished too, and so none of it is open.

Key definitions: `Element.fillWith`, `Registry.textBelow`, `Registry.Keeps`.
Key theorems: `Registry.expand_shares`, `Registry.text_eq_textBelow`,
`Registry.document_eq_mapM_text`.
-/
import LogForwarding.Expansion
import LogForwarding.Proofs.FirstFault

namespace LogForwarding

/-- The text of some segments of the template of `e`, where `textOf` gives the text of an
embedded element. -/
def Element.fillWith (e : Element) (textOf : String → Except Fault String) :
    List Segment → Except Fault String
  | [] => .ok ""
  | .text literal :: rest => do
    let text ← e.fillWith textOf rest
    return literal ++ text
  | .field key :: rest => do
    let value ← e.value key
    let text ← e.fillWith textOf rest
    return value ++ text
  | .embed slot :: rest => do
    let name ← e.value slot
    let inner ← textOf name
    let text ← e.fillWith textOf rest
    return Text.trimEnd '\n' inner ++ text

namespace Registry

/-- The text of the element `name`, made from its template while the names `opened` are open. -/
def textBelow (r : Registry) (opened : List String) (name : String) : Except Fault String :=
  if _ho : name ∈ opened then .error (.templateCycle (name :: opened).reverse)
  else
    match _hr : r.get? name with
    | none => .error (.unknownElement name)
    | some element => element.fillWith (r.textBelow (name :: opened)) element.segments
termination_by r.unopened opened
decreasing_by exact unopened_cons_lt (mem_names.2 (by simp [_hr])) _ho

theorem textBelow_of_mem {r : Registry} {opened : List String} {name : String}
    (h : name ∈ opened) :
    r.textBelow opened name = .error (.templateCycle (name :: opened).reverse) := by
  rw [textBelow, dif_pos h]

theorem textBelow_of_none {r : Registry} {opened : List String} {name : String}
    (h : name ∉ opened) (hr : r.get? name = none) :
    r.textBelow opened name = .error (.unknownElement name) := by
  rw [textBelow, dif_neg h]
  split
  · rfl
  · simp_all

theorem textBelow_of_some {r : Registry} {opened : List String} {name : String} {e : Element}
    (h : name ∉ opened) (hr : r.get? name = some e) :
    r.textBelow opened name = e.fillWith (r.textBelow (name :: opened)) e.segments := by
  rw [textBelow, dif_neg h]
  split
  · simp_all
  · simp_all

/-- An element has a text if it is registered, is not open, and its template can be filled. -/
theorem textBelow_eq_ok_iff {r : Registry} {opened : List String} {name text : String} :
    r.textBelow opened name = .ok text ↔
      ∃ e, name ∉ opened ∧ r.get? name = some e ∧
        e.fillWith (r.textBelow (name :: opened)) e.segments = .ok text := by
  by_cases ho : name ∈ opened
  · simp [textBelow_of_mem ho, ho]
  cases hr : r.get? name with
  | none => simp [textBelow_of_none ho hr]
  | some e => simp [textBelow_of_some ho hr, ho]

/-! ### What is kept -/

/-- No open name is finished. -/
def Apart (opened : List String) (texts : Texts) : Prop := ∀ name ∈ opened, name ∉ texts

/-- Every kept text is the one that would be made again, whichever names are open, as long as
none of them is finished. -/
def Keeps (r : Registry) (texts : Texts) : Prop :=
  ∀ name text, texts[name]? = some text →
    ∀ opened, Apart opened texts → r.textBelow opened name = .ok text

theorem apart_nil (texts : Texts) : Apart [] texts := fun _ h => nomatch h

theorem keeps_empty (r : Registry) : r.Keeps ∅ := fun name text h => by simp at h

/-- What an expansion that made `text` leaves behind. `plain` is the same expansion with nothing
kept, for any open names. -/
structure Finishes (r : Registry) (opened : List String) (before : Texts)
    (plain : List String → Except Fault String) (text : String) (after : Texts) : Prop where
  keeps : r.Keeps after
  grows : ∀ name ∈ before, name ∈ after
  apart : Apart opened after
  agrees : ∀ others, Apart others after → plain others = .ok text

/-- The expansion has the outcome that it has with nothing kept. -/
def Shares (r : Registry) (opened : List String) (before : Texts)
    (plain : List String → Except Fault String) : Except Fault (String × Texts) → Prop
  | .ok (text, after) => r.Finishes opened before plain text after
  | .error fault => plain opened = .error fault

theorem Shares.finishes {r : Registry} {opened : List String} {before after : Texts}
    {plain : List String → Except Fault String} {text : String}
    {outcome : Except Fault (String × Texts)} (h : r.Shares opened before plain outcome)
    (ho : outcome = .ok (text, after)) : r.Finishes opened before plain text after := by
  subst ho
  exact h

theorem Shares.fails {r : Registry} {opened : List String} {before : Texts}
    {plain : List String → Except Fault String} {fault : Fault}
    {outcome : Except Fault (String × Texts)} (h : r.Shares opened before plain outcome)
    (ho : outcome = .error fault) : plain opened = .error fault := by
  subst ho
  exact h

/-- A finished element joins what is kept. -/
theorem Finishes.insert {r : Registry} {opened : List String} {before after : Texts}
    {name text : String} {e : Element} (hr : r.get? name = some e) (hn : name ∉ opened)
    (h : r.Finishes (name :: opened) before
      (fun others => e.fillWith (r.textBelow others) e.segments)
      text after) :
    r.Finishes opened before (r.textBelow · name) text (after.insert name text) := by
  have hname : name ∉ after := h.apart name List.mem_cons_self
  have hsub : ∀ others, Apart others (after.insert name text) →
      name ∉ others ∧ Apart others after := by
    intro others ho
    refine ⟨fun hm => ho name hm (by simp), fun o hm hin => ho o hm ?_⟩
    simp [hin]
  have hmake : ∀ others, Apart others (after.insert name text) →
      r.textBelow others name = .ok text := by
    intro others ho
    obtain ⟨hno, hap⟩ := hsub others ho
    rw [textBelow_of_some hno hr]
    exact h.agrees (name :: others) (List.forall_mem_cons.2 ⟨hname, hap⟩)
  refine ⟨?_, ?_, ?_, hmake⟩
  · intro m s hm others ho
    rw [Std.ExtTreeMap.getElem?_insert] at hm
    split at hm
    · rename_i heq
      cases hm
      rw [← Std.LawfulEqCmp.compare_eq_iff_eq.1 heq]
      exact hmake others ho
    · exact h.keeps m s hm others (hsub others ho).2
  · intro m hm
    simp [h.grows m hm]
  · intro m hm hin
    rcases Std.ExtTreeMap.mem_insert.1 hin with heq | hin
    · exact hn (Std.LawfulEqCmp.compare_eq_iff_eq.1 heq ▸ hm)
    · exact h.apart m (List.mem_cons_of_mem _ hm) hin

/-! ### Nobody can tell the two apart -/

/-- Text in front of what the rest of a template becomes. -/
theorem Shares.bind_append {r : Registry} {opened : List String} {before : Texts}
    {plain : List String → Except Fault String} {outcome : Except Fault (String × Texts)}
    (pre : String) (h : r.Shares opened before plain outcome) :
    r.Shares opened before (fun others => do let text ← plain others; return pre ++ text)
      (do let (text, texts) ← outcome; return (pre ++ text, texts)) := by
  cases outcome with
  | error fault => exact bind_eq_error_iff.2 (.inl h)
  | ok made =>
    refine ⟨h.keeps, h.grows, h.apart, fun others ho => ?_⟩
    exact bind_eq_ok_iff.2 ⟨_, h.agrees others ho, rfl⟩

/-- The text of an embedded element in front of what the rest of a template becomes. -/
theorem Shares.bind {r : Registry} {opened : List String} {before : Texts}
    {plain plainRest : List String → Except Fault String}
    {outcome : Except Fault (String × Texts)} {rest : Texts → Except Fault (String × Texts)}
    (join : String → String → String) (h : r.Shares opened before plain outcome)
    (hrest : ∀ text after, r.Finishes opened before plain text after →
      r.Shares opened after plainRest (rest after)) :
    r.Shares opened before
      (fun others => do
        let inner ← plain others
        let text ← plainRest others
        return join inner text)
      (do
        let (inner, texts) ← outcome
        let (text, texts) ← rest texts
        return (join inner text, texts)) := by
  cases outcome with
  | error fault => exact bind_eq_error_iff.2 (.inl h)
  | ok made =>
    obtain ⟨inner, middle⟩ := made
    have hs := hrest inner middle h
    show r.Shares opened before _ (rest middle >>= _)
    cases hm : rest middle with
    | error fault =>
      have hinner : plain opened = .ok inner := h.agrees opened h.apart
      exact bind_eq_error_iff.2 (.inr ⟨inner, hinner, bind_eq_error_iff.2 (.inl (hs.fails hm))⟩)
    | ok made =>
      obtain ⟨text, after⟩ := made
      have ht := hs.finishes hm
      refine ⟨ht.keeps, fun name hn => ht.grows name (h.grows name hn), ht.apart, ?_⟩
      intro others ho
      have hmid : Apart others middle := fun name hn hin => ho name hn (ht.grows name hin)
      exact bind_eq_ok_iff.2
        ⟨inner, h.agrees others hmid, bind_eq_ok_iff.2 ⟨text, ht.agrees others ho, rfl⟩⟩

mutual

/-- An expansion that takes finished texts from those that are kept has the outcome that it has
with nothing kept. -/
theorem expand_shares (r : Registry) (opened : List String) (texts : Texts) (name : String)
    (hk : r.Keeps texts) (ha : Apart opened texts) :
    r.Shares opened texts (r.textBelow · name) (r.expand opened texts name) := by
  rw [expand]
  split
  · rename_i text htext
    exact ⟨hk, fun _ h => h, ha, fun others ho => hk name text htext others ho⟩
  · rename_i hnone
    split
    · rename_i ho
      exact textBelow_of_mem ho
    · rename_i ho
      split
      · rename_i hr
        exact textBelow_of_none ho hr
      · rename_i element hr
        have hname : name ∉ texts := by simpa using hnone
        have hfill := fill_shares r (name :: opened) texts element element.segments hk
          (List.forall_mem_cons.2 ⟨hname, ha⟩)
        split
        · rename_i fault hfault
          show r.textBelow opened name = _
          rw [textBelow_of_some ho hr]
          exact hfill.fails hfault
        · rename_i text after hok
          exact (hfill.finishes hok).insert hr ho
termination_by (r.unopened opened, 0)
decreasing_by exact Prod.Lex.left _ _ (unopened_cons_lt (mem_names.2 (by simp [*])) ‹_›)

/-- The same of the segments of a template. -/
theorem fill_shares (r : Registry) (opened : List String) (texts : Texts) (e : Element)
    (segments : List Segment) (hk : r.Keeps texts) (ha : Apart opened texts) :
    r.Shares opened texts (fun others => e.fillWith (r.textBelow others) segments)
      (r.fill opened texts e segments) := by
  match segments with
  | [] =>
    rw [fill]
    exact ⟨hk, fun _ h => h, ha, fun _ _ => rfl⟩
  | .text literal :: rest =>
    rw [fill]
    exact (fill_shares r opened texts e rest hk ha).bind_append literal
  | .field key :: rest =>
    rw [fill]
    cases hv : e.value key with
    | error fault => exact bind_eq_error_iff.2 (.inl hv)
    | ok value =>
      have hrest := (fill_shares r opened texts e rest hk ha).bind_append value
      simpa [Element.fillWith, hv, bind, Except.bind] using hrest
  | .embed slot :: rest =>
    rw [fill]
    cases hv : e.value slot with
    | error fault => exact bind_eq_error_iff.2 (.inl hv)
    | ok name =>
      have hchild := (expand_shares r opened texts name hk ha).bind
        (fun inner text => Text.trimEnd '\n' inner ++ text)
        fun _ after h => fill_shares r opened after e rest h.keeps h.apart
      simpa [Element.fillWith, hv, bind, Except.bind] using hchild
termination_by (r.unopened opened, segments.length)

end

/-- The text of an element is the one with nothing kept, whatever finished texts are there. -/
theorem map_fst_expand {r : Registry} {texts : Texts} (hk : r.Keeps texts) (name : String) :
    (r.expand [] texts name).map Prod.fst = r.textBelow [] name := by
  have h := expand_shares r [] texts name hk (apart_nil texts)
  cases he : r.expand [] texts name with
  | error fault => exact (h.fails he).symm
  | ok made => exact ((h.finishes he).agrees [] (apart_nil _)).symm

theorem text_eq_textBelow (r : Registry) (name : String) : r.text name = r.textBelow [] name :=
  map_fst_expand r.keeps_empty name

/-- Elements that are expanded one after the other have the texts that each has alone, and the
first that has none ends the run. -/
theorem expandAll_eq_mapM_text {r : Registry} {texts : Texts} (hk : r.Keeps texts)
    (names : List String) : r.expandAll texts names = names.mapM r.text := by
  induction names generalizing texts with
  | nil => rfl
  | cons name rest ih =>
    have h := expand_shares r [] texts name hk (apart_nil texts)
    rw [expandAll, List.mapM_cons, text_eq_textBelow]
    cases he : r.expand [] texts name with
    | error fault =>
      rw [h.fails he]
      rfl
    | ok made =>
      obtain ⟨text, after⟩ := made
      have hf := h.finishes he
      rw [hf.agrees [] (apart_nil after)]
      show (r.expandAll after rest >>= _) = (rest.mapM r.text >>= _)
      rw [ih hf.keeps]

/-- The document of some elements is laid out from the texts that each of them has alone. -/
theorem document_eq_mapM_text (r : Registry) (names : List String) :
    r.document names = (names.mapM r.text).map joinBlocks := by
  rw [document, expandAll_eq_mapM_text r.keeps_empty]

end Registry

end LogForwarding
