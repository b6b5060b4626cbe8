/-
# Documents as trees

An element that was built by embedding is a tree: each slot of its template
holds the name of one of the elements that it embeds itself. The text of a
tree can be made by recursion on it, without names, a registry or finished
texts (`Element.render`), and a document can be laid out from the texts of its
roots. Where the roots can be registered at all, `document` makes the same
text, or meets the same fault: elements of one name are equal, so what is
found under the name in a slot is the embedded element, and no element lies
below itself, so no name is open when it is met.

Key definitions: `Element.render`, `Element.SelfContained`, `layOut`.
Key theorems: `Registry.textBelow_eq_render`, `document_eq_layOut_render`.
-/
import LogForwarding.Proofs.Canonical
import LogForwarding.Proofs.Coherence
import LogForwarding.Proofs.Expansion.References

namespace LogForwarding

namespace Element

mutual

/-- The text of a tree: that of its template, where each slot stands for the text of the embedded
element that it names. -/
def render : Element → Except Fault String
  | e@⟨_, _, _, _, _, embeds⟩ =>
    e.fillWith (fun name => ((renderEach embeds).lookup name).getD (.error (.unknownElement name)))
      e.segments

/-- The names of some trees, each with its text. -/
def renderEach : List Element → List (String × Except Fault String)
  | [] => []
  | e :: es => (e.name, e.render) :: renderEach es

end

theorem lookup_renderEach (es : List Element) (name : String) :
    (renderEach es).lookup name = (es.find? (·.name == name)).map render := by
  induction es with
  | nil => rfl
  | cons e es ih =>
    rw [renderEach, List.lookup_cons, List.find?_cons, ih, BEq.comm]
    cases e.name == name <;> rfl

/-- The text of the element of the given name among those that `e` embeds. -/
def embeddedText (e : Element) (name : String) : Except Fault String :=
  match e.embeds.find? (·.name == name) with
  | some child => child.render
  | none => .error (.unknownElement name)

/-- The template of a tree is filled with the texts of the embedded elements. -/
theorem render_eq (e : Element) : e.render = e.fillWith e.embeddedText e.segments := by
  have htext : ∀ name, ((renderEach e.embeds).lookup name).getD (.error (.unknownElement name)) =
      e.embeddedText name := by
    intro name
    rw [lookup_renderEach, embeddedText]
    cases e.embeds.find? (·.name == name) <;> rfl
  rw [← funext htext]
  cases e
  rfl

/-- What fills a template matters only for the names in its slots. -/
theorem fillWith_congr {e : Element} {f g : String → Except Fault String} {segments : List Segment}
    (h : ∀ slot name, .embed slot ∈ segments → e.get? slot = some name → f name = g name) :
    e.fillWith f segments = e.fillWith g segments := by
  induction segments with
  | nil => rfl
  | cons segment rest ih =>
    have hrest := ih fun slot name hs => h slot name (List.mem_cons_of_mem segment hs)
    cases segment with
    | text literal => rw [fillWith, fillWith, hrest]
    | field key => rw [fillWith, fillWith, hrest]
    | embed slot =>
      rw [fillWith, fillWith, hrest]
      cases hv : e.value slot with
      | error fault => rfl
      | ok name =>
        have hname := h slot name List.mem_cons_self (value_eq_ok_iff.1 hv)
        show (f name >>= _) = (g name >>= _)
        rw [hname]

/-! ### Trees -/

/-- Each slot of the template that is set holds the name of an element embedded by `e` itself. -/
def EmbedsSlots (e : Element) : Prop :=
  ∀ slot name, .embed slot ∈ e.segments → e.get? slot = some name →
    ∃ child ∈ e.embeds, child.name = name

/-- The same at every depth. -/
def SelfContained (e : Element) : Prop := ∀ d ∈ e.tree, d.EmbedsSlots

theorem SelfContained.of_mem_embeds {e child : Element} (h : e.SelfContained)
    (hc : child ∈ e.embeds) : child.SelfContained :=
  fun d hd => h d (tree_subset_of_mem_embeds hc hd)

theorem sizeOf_lt_of_mem_embeds {e child : Element} (h : child ∈ e.embeds) :
    sizeOf child < sizeOf e := by
  obtain ⟨name, part, rank, template, fields, embeds⟩ := e
  have hlt : sizeOf child < sizeOf embeds := List.sizeOf_lt_of_mem h
  rw [mk.sizeOf_spec]
  omega

/-- No part of a tree is larger than the tree. -/
theorem sizeOf_le_of_mem_tree {d e : Element} (h : d ∈ e.tree) : sizeOf d ≤ sizeOf e := by
  rw [tree_eq_cons, List.mem_cons, List.mem_flatMap] at h
  rcases h with rfl | ⟨child, hc, hd⟩
  · exact Nat.le_refl _
  · have hlt := sizeOf_lt_of_mem_embeds hc
    have hle := sizeOf_le_of_mem_tree hd
    omega
termination_by sizeOf e

/-- What a slot of the template stands for is the text of an embedded element. -/
theorem EmbedsSlots.embeddedText_eq {e : Element} {slot name : String} (h : e.EmbedsSlots)
    (hs : .embed slot ∈ e.segments) (hn : e.get? slot = some name) :
    ∃ child ∈ e.embeds, child.name = name ∧ e.embeddedText name = child.render := by
  obtain ⟨child, hc, hname⟩ := h slot name hs hn
  unfold embeddedText
  cases hf : e.embeds.find? (·.name == name) with
  | none =>
    have := List.find?_eq_none.1 hf child hc
    simp [hname] at this
  | some found =>
    have hfound : found.name = name := by simpa using List.find?_some hf
    exact ⟨found, List.mem_of_find?_eq_some hf, hfound, rfl⟩

/-- A tree has no text only because a field is not set that a placeholder somewhere in it names. -/
theorem missingField_of_render {e : Element} {fault : Fault} (hs : e.SelfContained)
    (h : e.render = .error fault) :
    ∃ d ∈ e.tree, ∃ segment ∈ d.segments, ∃ key ∈ segment.key?,
      d.get? key = none ∧ fault = .missingField d.name key := by
  rw [render_eq] at h
  rcases obstructed_of_fillWith h with ⟨segment, hseg, hkey⟩ | ⟨slot, name, hslot, hn, h⟩
  · exact ⟨e, e.mem_tree_self, segment, hseg, hkey⟩
  · obtain ⟨child, hc, _, htext⟩ := (hs e e.mem_tree_self).embeddedText_eq hslot hn
    have hlt := sizeOf_lt_of_mem_embeds hc
    rw [htext] at h
    obtain ⟨d, hd, hmissing⟩ := missingField_of_render (hs.of_mem_embeds hc) h
    exact ⟨d, tree_subset_of_mem_embeds hc hd, hmissing⟩
termination_by sizeOf e

end Element

/-! ### The registered trees -/

namespace Registry

/-- In a registry that holds all of a tree, the text of its root is that of the tree, as long as
no name in the tree is open. -/
theorem textBelow_eq_render {r : Registry} {e : Element} {opened : List String}
    (hr : ∀ d ∈ e.tree, r.get? d.name = some d) (hs : e.SelfContained)
    (ho : ∀ d ∈ e.tree, d.name ∉ opened) : r.textBelow opened e.name = e.render := by
  rw [textBelow_of_some (ho e e.mem_tree_self) (hr e e.mem_tree_self), Element.render_eq]
  apply Element.fillWith_congr
  intro slot name hslot hn
  obtain ⟨child, hc, rfl, htext⟩ := (hs e e.mem_tree_self).embeddedText_eq hslot hn
  have hlt := Element.sizeOf_lt_of_mem_embeds hc
  have hsub := Element.tree_subset_of_mem_embeds hc
  rw [htext]
  refine textBelow_eq_render (fun d hd => hr d (hsub hd)) (hs.of_mem_embeds hc) fun d hd => ?_
  rw [List.mem_cons, not_or]
  refine ⟨fun hname => ?_, ho d (hsub hd)⟩
  -- An element below `e` with its name would be `e` itself, and too large for its place.
  have hde := hr d (hsub hd)
  rw [hname, hr e e.mem_tree_self] at hde
  cases hde
  have hle := Element.sizeOf_le_of_mem_tree hd
  omega
termination_by sizeOf e

theorem text_eq_render {r : Registry} {roots : List Element} {e : Element}
    (hr : Registry.ofRoots roots = .ok r) (he : e ∈ roots) (hs : e.SelfContained) :
    r.text e.name = e.render := by
  rw [text_eq_textBelow]
  refine textBelow_eq_render (fun d hd => ?_) hs (by simp)
  exact (holds_of_ofRoots hr d).1 (Element.mem_treeList.2 ⟨e, he, hd⟩)

end Registry

/-! ### The document -/

/-- Blocks with a blank line between any two of them, closed by a newline. -/
def layOut : List String → String
  | [] => ""
  | [block] => block ++ "\n"
  | block :: rest => block ++ "\n\n" ++ layOut rest

theorem joinBlocks_eq_layOut (texts : List String) :
    joinBlocks texts = layOut ((texts.map (Text.trim '\n')).filter (· ≠ "")) := by
  unfold joinBlocks
  generalize (texts.map (Text.trim '\n')).filter (· ≠ "") = blocks
  cases blocks with
  | nil => rfl
  | cons block rest =>
    show String.intercalate "\n\n" (block :: rest) ++ "\n" = _
    induction rest generalizing block with
    | nil => rw [String.intercalate_singleton, layOut]
    | cons next rest ih =>
      rw [String.intercalate_cons_cons, String.append_assoc, ih next]
      rfl

theorem document_eq_mapM_render {roots : List Element} {r : Registry}
    (hs : ∀ root ∈ roots, root.SelfContained) (hr : Registry.ofRoots roots = .ok r) :
    document roots = (roots.mapM Element.render).map joinBlocks := by
  have htexts : ∀ root ∈ roots, (r.text ∘ Element.name) root = root.render :=
    fun root hroot => Registry.text_eq_render hr hroot (hs root hroot)
  rw [document, hr]
  show r.document (roots.map Element.name) = _
  rw [Registry.document_eq_mapM_text, List.mapM_map, mapM_congr htexts]

/-- **A document is made of trees.** Of roots that are trees, and that can be registered together,
the document is laid out from the texts of the trees, or ends with the fault of the first tree
that has none. It never meets a cycle or an unknown name. -/
theorem document_eq_layOut_render {roots : List Element}
    (hs : ∀ root ∈ roots, root.SelfContained) (hr : ∃ r, Registry.ofRoots roots = .ok r) :
    document roots = (roots.mapM Element.render).map
        (fun texts => layOut ((texts.map (Text.trim '\n')).filter (· ≠ ""))) ∧
      (∀ chain, document roots ≠ .error (.templateCycle chain)) ∧
      ∀ name, document roots ≠ .error (.unknownElement name) := by
  obtain ⟨r, hr⟩ := hr
  have hdocument := document_eq_mapM_render hs hr
  have hmissing : ∀ fault, document roots = .error fault →
      ∃ element field, fault = .missingField element field := by
    intro fault hfault
    rw [hdocument, map_eq_error_iff] at hfault
    obtain ⟨before, root, after, rfl, _, hroot⟩ := mapM_eq_error_iff.1 hfault
    obtain ⟨d, _, _, _, key, _, _, rfl⟩ := Element.missingField_of_render (hs root (by simp)) hroot
    exact ⟨d.name, key, rfl⟩
  refine ⟨?_, fun chain h => ?_, fun name h => ?_⟩
  · rw [hdocument, funext joinBlocks_eq_layOut]
  · obtain ⟨_, _, h⟩ := hmissing _ h
    cases h
  · obtain ⟨_, _, h⟩ := hmissing _ h
    cases h

/-- A fragment whose value reads like a placeholder. -/
def quotation : Element :=
  Element.ofTemplate "quotation" (Template.write [.text "says ", .field "words", .text "\n"])
    |>.set "words" "\x7b\x7b.words\x7d\x7d"

/-- A root that embeds the fragment. -/
def speaker (name : String) : Element :=
  Element.ofTemplate name (Template.write [.field "name", .text " ", .embed "speech"])
    |>.set "name" name
    |>.embed "speech" quotation

theorem selfContained_speaker (name : String) : (speaker name).SelfContained := by
  have hroot : (speaker name).segments = [.field "name", .text " ", .embed "speech"] :=
    Template.segments_write (by decide)
  have hquotation : quotation.segments = [.text "says ", .field "words", .text "\n"] :=
    Template.segments_write (by decide)
  have htree : (speaker name).tree = [speaker name, quotation] := rfl
  intro d hd slot value hslot hvalue
  rw [htree] at hd
  rcases List.mem_pair.1 hd with rfl | rfl
  · rw [hroot] at hslot
    have hs : slot = "speech" := by simpa using hslot
    rw [hs, speaker, Element.get?_embed] at hvalue
    exact ⟨quotation, List.mem_singleton_self _, by simpa using hvalue⟩
  · simp [hquotation] at hslot

/-- A fragment that two roots share is written twice, and its value is not read again. -/
theorem document_speakers :
    (∀ root ∈ [speaker "Ann", speaker "Bob"], root.SelfContained) ∧
      (∃ r, Registry.ofRoots [speaker "Ann", speaker "Bob"] = .ok r) ∧
      document [speaker "Ann", speaker "Bob"] =
        .ok "Ann says \x7b\x7b.words\x7d\x7d\n\nBob says \x7b\x7b.words\x7d\x7d\n" := by
  have hs : ∀ root ∈ [speaker "Ann", speaker "Bob"], root.SelfContained := by
    simp [selfContained_speaker]
  have hr : ∃ r, Registry.ofRoots [speaker "Ann", speaker "Bob"] = .ok r := by
    rw [Registry.exists_ofRoots_iff]
    unfold Coherent
    decide +kernel
  refine ⟨hs, hr, ?_⟩
  rw [(document_eq_layOut_render hs hr).1]
  decide +kernel

end LogForwarding
