/-
# Elements with nothing left open

An element is filled if every placeholder of its template finds what it asks
for in the element itself: a value for a field, the name of an embedded
element for a slot. A tree is whole if all its elements are filled; nothing
stands in the way of its text. Elements are built by setting fields and
embedding others, so that each can be seen to be filled from its template.

Key definitions: `Element.Filled`, `Element.Whole`.
Key theorems: `Element.Filled.of_write`, `Element.Whole.of_embeds`,
`exists_document_of_whole`.
-/
import LogForwarding.Proofs.Expansion.Tree

namespace LogForwarding

namespace Element

@[simp] theorem get?_place (e : Element) (part : Section) (rank : Nat) (key : String) :
    (e.place part rank).get? key = e.get? key := rfl

@[simp] theorem embeds_place (e : Element) (part : Section) (rank : Nat) :
    (e.place part rank).embeds = e.embeds := rfl

@[simp] theorem embeds_set (e : Element) (key value : String) :
    (e.set key value).embeds = e.embeds := rfl

@[simp] theorem embeds_embed (e : Element) (slot : String) (child : Element) :
    (e.embed slot child).embeds = e.embeds ++ [child] := rfl

@[simp] theorem embeds_ofTemplate (name template : String) :
    (ofTemplate name template).embeds = [] := rfl

/-- The placeholder finds what it asks for. -/
def Fills (e : Element) : Segment → Prop
  | .text _ => True
  | .field key => (e.get? key).isSome
  | .embed slot => ∃ child ∈ e.embeds, e.get? slot = some child.name

/-- Every placeholder of the template finds what it asks for. -/
def Filled (e : Element) : Prop := ∀ segment ∈ e.segments, e.Fills segment

/-- Every element of the tree is filled. -/
def Whole (e : Element) : Prop := ∀ d ∈ e.tree, d.Filled

/-- What a template is written from is what there is to fill. -/
theorem Filled.of_write {e : Element} {segments : List Segment}
    (ht : e.template = Template.write segments) (hc : Template.isCanonical segments)
    (h : ∀ segment ∈ segments, e.Fills segment) : e.Filled := by
  have hsegments : e.segments = segments := by
    rw [Element.segments, ht, Template.segments_write hc]
  intro segment hs
  rw [hsegments] at hs
  exact h segment hs

theorem Filled.embedsSlots {e : Element} (h : e.Filled) : e.EmbedsSlots := by
  intro slot name hslot hname
  obtain ⟨child, hc, hchild⟩ := h _ hslot
  rw [hname] at hchild
  exact ⟨child, hc, (Option.some.inj hchild).symm⟩

theorem Filled.complete {e : Element} (h : e.Filled) : e.Complete := by
  intro segment hs key hkey
  have hfills := h segment hs
  cases segment with
  | text literal => cases hkey
  | field name =>
    cases hkey
    exact hfills
  | embed slot =>
    cases hkey
    obtain ⟨child, _, hchild⟩ := hfills
    rw [hchild]
    rfl

theorem Whole.of_embeds {e : Element} (h : e.Filled) (hc : ∀ child ∈ e.embeds, child.Whole) :
    e.Whole := by
  intro d hd
  rw [tree_eq_cons, List.mem_cons, List.mem_flatMap] at hd
  rcases hd with rfl | ⟨child, hchild, hd⟩
  · exact h
  · exact hc child hchild d hd

theorem Whole.selfContained {e : Element} (h : e.Whole) : e.SelfContained :=
  fun d hd => (h d hd).embedsSlots

/-- A whole tree has a text. -/
theorem Whole.exists_render {e : Element} (h : e.Whole) : ∃ text, e.render = .ok text := by
  rw [exists_eq_ok_iff]
  intro fault hfault
  obtain ⟨d, hd, segment, hs, key, hkey, hnone, _⟩ := missingField_of_render h.selfContained hfault
  have hsome := (h d hd).complete segment hs key hkey
  rw [hnone] at hsome
  cases hsome

end Element

/-- Whole trees whose elements are coherent have a document. -/
theorem exists_document_of_whole {roots : List Element} (hw : ∀ root ∈ roots, root.Whole)
    (hc : Coherent (Element.treeList roots)) : ∃ text, document roots = .ok text := by
  obtain ⟨r, hr⟩ := Registry.exists_ofRoots_iff.2 hc
  rw [document_eq_mapM_render (fun root hroot => (hw root hroot).selfContained) hr]
  obtain ⟨texts, htexts⟩ := exists_mapM_eq_ok_iff.2 fun root hroot => (hw root hroot).exists_render
  exact ⟨joinBlocks texts, map_eq_ok_iff.2 ⟨texts, htexts, rfl⟩⟩

end LogForwarding
