/-
# Where elements are called for

An element is called for from outside, one after the other, or by an element
whose template is being filled, and then its expansion lies within that one's
(`Registry.Called`). Wherever that is, marks, open names and finished texts are
in step, and the open names are those of the expansions under way. So nothing
is ever marked as finished that has no text; and as no name is open twice,
there are never more expansions under way than elements.

Key definitions: `Registry.Asks`, `Registry.Called`.
Key theorems: `Registry.Asks.inStep`, `Registry.Called.inStep`,
`Registry.expansion_in_step`.
-/
import LogForwarding.Proofs.Canonical
import LogForwarding.Proofs.Coherence
import LogForwarding.Proofs.Expansion.Marks

namespace LogForwarding

open Expansion

namespace Registry

/-- While these segments of the template of `e` are filled, beginning with the given expansion, the
element `m` is called for with `y`. -/
inductive Asks (r : Registry) (e : Element) (y : Expansion) (m : String) :
    Expansion → List Segment → Prop where
  | slot {slot : String} {rest : List Segment} (hm : e.value slot = .ok m) :
      r.Asks e y m y (.embed slot :: rest)
  | text {x : Expansion} {literal : String} {rest : List Segment} (h : r.Asks e y m x rest) :
      r.Asks e y m x (.text literal :: rest)
  | field {x : Expansion} {key value : String} {rest : List Segment}
      (hv : e.value key = .ok value) (h : r.Asks e y m x rest) :
      r.Asks e y m x (.field key :: rest)
  | embed {x : Expansion} {slot name : String} {rest : List Segment} {child : x.Result}
      (hn : e.value slot = .ok name) (hc : r.expandMarked x name = .ok child)
      (h : r.Asks e y m child.after rest) : r.Asks e y m x (.embed slot :: rest)

/-- An element is called for while the expansions of the given names are under way, from the
innermost outwards. From outside any elements are called for, one after the other, as long as none
of them fails. -/
inductive Called (r : Registry) : List String → Expansion → String → Prop where
  | first (name : String) : r.Called [] fresh name
  | next {x : Expansion} {name : String} {made : x.Result} (h : r.Called [] x name)
      (hm : r.expandMarked x name = .ok made) (following : String) :
      r.Called [] made.after following
  | nested {callers : List String} {x y : Expansion} {name m : String} {e : Element}
      (h : r.Called callers x name) (hb : r.Begins x name e)
      (ha : r.Asks e y m (x.enter name) e.segments) : r.Called (name :: callers) y m

variable {r : Registry} {x : Expansion} {name : String} {e : Element}

/-- What is asked for while a template is filled is asked for with all in step. -/
theorem Asks.inStep {y : Expansion} {m : String} {segments : List Segment}
    (h : r.Asks e y m x segments) (hx : x.InStep r) : y.InStep r ∧ y.opened = x.opened := by
  induction h with
  | slot _ => exact ⟨hx, rfl⟩
  | text _ ih => exact ih hx
  | field _ _ ih => exact ih hx
  | embed _ hc _ ih =>
    have hp := expandMarked_passes hx hc
    obtain ⟨hy, ho⟩ := ih hp.inStep
    exact ⟨hy, ho.trans hp.opened⟩

/-- Wherever an element is called for, all is in step, and the open names are the callers'. -/
theorem Called.inStep {callers : List String} (h : r.Called callers x name) :
    x.InStep r ∧ x.opened = callers := by
  induction h with
  | first name => exact ⟨.fresh r, rfl⟩
  | next _ hm _ ih =>
    obtain ⟨hx, ho⟩ := ih
    have hp := expandMarked_passes hx hm
    exact ⟨hp.inStep, hp.opened.trans ho⟩
  | nested _ hb ha ih =>
    obtain ⟨hx, ho⟩ := ih
    obtain ⟨hy, hopened⟩ := ha.inStep (hx.enter hb)
    exact ⟨hy, hopened.trans (congrArg _ ho)⟩

/-- **Marks, open names and finished texts stay in step.** With the marks the documents are the same
as without. Wherever an element is called for, the open names are registered, none of them twice;
they are the callers', and those that are marked as open. Those that are marked as finished are
those with a text, and it is found. The outcome is the one without the marks. If it is a success,
the open names are left as they were, with their marks, the element is marked as finished, its
finished text is the one that is given back, and no other has been lost or changed. And whether or
not the call lets an expansion begin, no more are under way than there are elements. -/
theorem expansion_in_step (r : Registry) :
    (∀ names, r.documentMarked names = r.document names) ∧
    ∀ callers x name, r.Called callers x name →
      x.InStep r ∧ x.opened = callers ∧
      (∀ m, x.IsFinished m → ∃ text, x.finished? m = some text) ∧
      (r.expandMarked x name).map Result.plain = r.expand callers x.texts name ∧
      (∀ made, r.expandMarked x name = .ok made → made.Completes r name) ∧
      callers.length ≤ r.size ∧ ∀ e, r.Begins x name e → (name :: callers).length ≤ r.size := by
  refine ⟨documentMarked_eq r, fun callers x name h => ?_⟩
  obtain ⟨hx, rfl⟩ := h.inStep
  refine ⟨hx, rfl, fun m => hx.exists_finished?, (expand_eq_map_plain hx name).symm,
    fun made => completes_of_expandMarked hx, hx.length_opened_le, fun e hb => ?_⟩
  exact (hx.enter hb).length_opened_le

/-- A root with no placeholder. -/
def refrain : Element := Element.ofTemplate "refrain" (Template.write [.text "la"])

/-- A root that embeds the other one. -/
def song : Element :=
  (Element.ofTemplate "song" (Template.write [.embed "again"])).embed "again" refrain

/-- What has been expanded after the first root. -/
def afterRefrain : Expansion := (fresh.enter "refrain").leave "refrain" "la"

/-- The second root asks for the first one, which has a text already. -/
theorem expansion_in_step_song : ∃ r, ofRoots [refrain, song] = .ok r ∧
    r.Called ["song"] (afterRefrain.enter "song") "refrain" ∧
    (afterRefrain.enter "song").finished? "refrain" = some "la" ∧
    (afterRefrain.enter "song").InStep r ∧ (afterRefrain.enter "song").opened = ["song"] ∧
    ["song"].length ≤ r.size := by
  obtain ⟨r, hr⟩ : ∃ r, ofRoots [refrain, song] = .ok r :=
    exists_ofRoots_iff.2 (by unfold Coherent; decide)
  have hrefrain : r.get? "refrain" = some refrain := (holds_of_ofRoots hr refrain).1 (by decide)
  have hsong : r.get? "song" = some song := (holds_of_ofRoots hr song).1 (by decide)
  have hmade : ∃ made, r.expandMarked fresh "refrain" = .ok made ∧ made.after = afterRefrain := by
    have hb : r.Begins fresh "refrain" refrain := ⟨by decide, by decide, hrefrain⟩
    have hsegments : refrain.segments = [.text "la"] := Template.segments_write (by decide)
    rw [hb.expandMarked_eq, hsegments, fillMarked, fillMarked]
    exact ⟨_, rfl, rfl⟩
  have hcalled : r.Called ["song"] (afterRefrain.enter "song") "refrain" := by
    obtain ⟨made, hmade, hafter⟩ := hmade
    have hb : r.Begins afterRefrain "song" song := ⟨by decide, by decide, hsong⟩
    have hsegments : song.segments = [.embed "again"] := Template.segments_write (by decide)
    refine .nested (hafter ▸ .next (.first "refrain") hmade "song") hb ?_
    rw [hsegments]
    exact .slot rfl
  obtain ⟨hstep, hopened, _, _, _, hlength, _⟩ := (expansion_in_step r).2 _ _ _ hcalled
  exact ⟨r, hr, hcalled, by decide, hstep, hopened, hlength⟩

end Registry

end LogForwarding
