/-
# What the text of an element does not depend on

The text of an element is made from what it reaches, and from nothing else. It
is the same whichever elements of a document were expanded before it, with the
texts that these have finished; and it stays the same when further elements are
registered. Only where an element has no text can this change, for one that it
reaches may still be missing.

Key definitions: `Registry.Extends`.
Key theorems: `Registry.document_outcome`, `Registry.Extends.text_eq_ok`,
`Registry.Extends.document_eq_ok`.
-/
import LogForwarding.Proofs.Expansion.Tree

namespace LogForwarding

namespace Registry

/-! ### Other elements of the document -/

theorem forall₂_strips_iff {c : Char} {texts blocks : List String} :
    List.Forall₂ (Text.Strips c) texts blocks ↔ blocks = texts.map (Text.trim c) := by
  have hstrips : Text.Strips c = fun s block => Text.trim c s = block := by
    funext s block
    exact propext (Text.strips_iff.trans eq_comm)
  rw [hstrips, ← List.forall₂_map_left_iff, List.forall₂_eq_eq_eq]
  exact eq_comm

/-- **The elements of a document do not feel each other.** There is no document if and only if some
element has no text, and the fault is the one that the first of these has alone. Otherwise the
document is laid out from the texts that its elements have alone, each stripped of the newlines at
its ends and left out if nothing is between them. -/
theorem document_outcome (r : Registry) (names : List String) :
    ((∃ fault, r.document names = .error fault) ↔
      ∃ name ∈ names, ∃ fault, r.text name = .error fault) ∧
    (∀ before name after fault, names = before ++ name :: after →
      (∀ b ∈ before, ∃ text, r.text b = .ok text) → r.text name = .error fault →
      r.document names = .error fault) ∧
    ∀ texts, List.Forall₂ (fun name text => r.text name = .ok text) names texts →
      ∃ blocks, (∀ bs, List.Forall₂ (Text.Strips '\n') texts bs ↔ bs = blocks) ∧
        r.document names = .ok (layOut (blocks.filter (· ≠ ""))) := by
  simp only [document_eq_mapM_text, map_eq_error_iff, map_eq_ok_iff]
  refine ⟨exists_mapM_eq_error_iff, fun before name after fault hsplit hbefore hname => ?_,
    fun texts htexts => ⟨_, fun _ => forall₂_strips_iff, ?_⟩⟩
  · exact mapM_eq_error_iff.2 ⟨before, name, after, hsplit, hbefore, hname⟩
  · exact ⟨texts, mapM_eq_ok_iff.2 htexts, joinBlocks_eq_layOut texts⟩

end Registry

/-- An element with a text of its own embeds nothing. -/
theorem selfContained_of_segments_text {e : Element} {text : String} (htree : e.tree = [e])
    (hsegments : e.segments = [.text text]) : e.SelfContained := by
  intro d hd slot value hslot _
  rw [htree, List.mem_singleton] at hd
  rw [hd, hsegments] at hslot
  simp at hslot

/-- A root whose text is a pause. -/
def pause : Element := Element.ofTemplate "pause" (Template.write [.text "\n\n"])

theorem selfContained_pause : pause.SelfContained :=
  selfContained_of_segments_text rfl (Template.segments_write (by decide))

/-- A root whose text is set off by newlines. -/
def chorus : Element := Element.ofTemplate "chorus" (Template.write [.text "\n\nla\nla\n"])

theorem selfContained_chorus : chorus.SelfContained :=
  selfContained_of_segments_text rfl (Template.segments_write (by decide))

namespace Registry

/-- Newlines at the ends of a text are stripped, those within it are kept, and a pause is left
out. -/
theorem document_outcome_chorus :
    ∃ r, Registry.ofRoots [chorus, pause, speaker "Ann"] = .ok r ∧
      r.text "chorus" = .ok "\n\nla\nla\n" ∧ r.text "pause" = .ok "\n\n" ∧
      r.text "Ann" = .ok "Ann says \x7b\x7b.words\x7d\x7d" ∧
      r.document ["chorus", "pause", "Ann"] =
        .ok "la\nla\n\nAnn says \x7b\x7b.words\x7d\x7d\n" := by
  obtain ⟨r, hr⟩ : ∃ r, Registry.ofRoots [chorus, pause, speaker "Ann"] = .ok r := by
    rw [exists_ofRoots_iff]
    unfold Coherent
    decide +kernel
  have hchorus : r.text "chorus" = .ok "\n\nla\nla\n" :=
    (text_eq_render hr (by simp) selfContained_chorus).trans (by decide +kernel)
  have hpause : r.text "pause" = .ok "\n\n" :=
    (text_eq_render hr (by simp) selfContained_pause).trans (by decide +kernel)
  have hann : r.text "Ann" = .ok "Ann says \x7b\x7b.words\x7d\x7d" :=
    (text_eq_render hr (by simp) (selfContained_speaker "Ann")).trans (by decide +kernel)
  obtain ⟨blocks, hblocks, hdocument⟩ := (document_outcome r ["chorus", "pause", "Ann"]).2.2 _
    (.cons hchorus (.cons hpause (.cons hann .nil)))
  have hstrips : List.Forall₂ (Text.Strips '\n')
      ["\n\nla\nla\n", "\n\n", "Ann says \x7b\x7b.words\x7d\x7d"]
      ["la\nla", "", "Ann says \x7b\x7b.words\x7d\x7d"] :=
    .cons ⟨⟨2, 1, by decide⟩, by decide, by decide⟩ <|
      .cons ⟨⟨2, 0, by decide⟩, by decide, by decide⟩ <|
        .cons ⟨⟨0, 0, by decide⟩, by decide, by decide⟩ .nil
  refine ⟨r, hr, hchorus, hpause, hann, ?_⟩
  rw [hdocument, ← (hblocks _).1 hstrips]
  rfl

/-! ### Elements that are registered later -/

/-- What is registered in `r` is registered in `r'`. -/
def Extends (r r' : Registry) : Prop :=
  ∀ name e, r.get? name = some e → r'.get? name = some e

namespace Extends

variable {r r' : Registry}

theorem refl (r : Registry) : r.Extends r := fun _ _ h => h

theorem trans {r'' : Registry} (h : r.Extends r') (h' : r'.Extends r'') : r.Extends r'' :=
  fun name e hr => h' name e (h name e hr)

/-- To insert an element leaves the others where they are. -/
theorem of_insert {e : Element} (h : r.insert e = .ok r') : r.Extends r' := by
  intro name kept hkept
  rw [get?_insert h]
  split
  · rename_i hname
    exact congrArg some (exists_insert_iff.1 ⟨r', h⟩ kept (hname ▸ hkept)).symm
  · exact hkept

/-- A text can be made again, whichever names are open. -/
theorem textBelow_eq_ok (h : r.Extends r') {opened : List String} {name text : String}
    (ht : r.textBelow opened name = .ok text) : r'.textBelow opened name = .ok text := by
  obtain ⟨e, ho, hr, hfill⟩ := textBelow_eq_ok_iff.1 ht
  have hlt := unopened_cons_lt (mem_names.2 (Option.isSome_of_mem hr)) ho
  refine textBelow_eq_ok_iff.2 ⟨e, ho, h name e hr, ?_⟩
  -- Every slot names an element that has a text, and has the same one among more elements.
  rw [← hfill]
  refine Element.fillWith_congr fun slot child hslot hchild => ?_
  obtain ⟨inner, hinner⟩ := (Element.of_fillWith_eq_ok hfill).2 slot child hslot hchild
  rw [hinner, h.textBelow_eq_ok hinner]
termination_by r.unopened opened

/-- An element that has a text keeps it. -/
theorem text_eq_ok (h : r.Extends r') {name text : String} (ht : r.text name = .ok text) :
    r'.text name = .ok text := by
  rw [text_eq_textBelow] at ht ⊢
  exact h.textBelow_eq_ok ht

/-- So do elements that have a document. -/
theorem document_eq_ok (h : r.Extends r') {names : List String} {text : String}
    (hd : r.document names = .ok text) : r'.document names = .ok text := by
  rw [document_eq_mapM_text, map_eq_ok_iff] at hd ⊢
  obtain ⟨texts, htexts, rfl⟩ := hd
  refine ⟨texts, mapM_eq_ok_iff.2 ?_, rfl⟩
  exact (mapM_eq_ok_iff.1 htexts).imp fun _ _ => h.text_eq_ok

end Extends

end Registry

end LogForwarding
