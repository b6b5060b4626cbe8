/-
# One document after the other

A registry keeps what is said of a text: the texts and documents of elements
stay the same among more elements. So where the roots of two documents can be
registered together, the document of all of them is put together from the two.
They are joined as blocks are, by a blank line, and one that is empty leaves no
trace. It does not matter how the roots embed each other or share what they
embed.

Key definitions: `followedBy`.
Key theorems: `layOut_append`, `joinBlocks_append`, `Registry.document_append`,
`document_append_roots`.
-/
import LogForwarding.Proofs.Expansion.Locality

namespace LogForwarding

/-! ### Texts of documents -/

/-- Two documents as one: with a blank line between them if both have a text. -/
def followedBy (first second : String) : String :=
  if first = "" then second
  else if second = "" then first
  else first ++ "\n" ++ second

theorem layOut_ne_empty {blocks : List String} (h : blocks ≠ []) : layOut blocks ≠ "" := by
  match blocks with
  | [] => exact absurd rfl h
  | [block] => simp [layOut]
  | block :: next :: rest => simp [layOut]

theorem layOut_append {as bs : List String} (ha : as ≠ []) (hb : bs ≠ []) :
    layOut (as ++ bs) = layOut as ++ "\n" ++ layOut bs := by
  induction as with
  | nil => exact absurd rfl ha
  | cons a rest ih =>
    have hgap : ("\n\n" : String) = "\n" ++ "\n" := rfl
    by_cases hrest : rest = []
    · subst hrest
      calc layOut (a :: bs)
        _ = a ++ "\n\n" ++ layOut bs := by rw [layOut]; exact fun h => hb h
        _ = a ++ "\n" ++ "\n" ++ layOut bs := by rw [hgap, ← String.append_assoc]
    · have hboth : rest ++ bs ≠ [] := by simp [hb]
      calc layOut (a :: (rest ++ bs))
        _ = a ++ "\n\n" ++ layOut (rest ++ bs) := by rw [layOut]; exact fun h => hboth h
        _ = a ++ "\n\n" ++ (layOut rest ++ "\n" ++ layOut bs) := by rw [ih hrest]
        _ = layOut (a :: rest) ++ "\n" ++ layOut bs := by
          have hfirst : layOut (a :: rest) = a ++ "\n\n" ++ layOut rest := by
            rw [layOut]; exact fun h => hrest h
          rw [hfirst]
          simp only [String.append_assoc]

/-- Blocks that stand one after the other are those of two documents. -/
theorem layOut_append_eq_followedBy (as bs : List String) :
    layOut (as ++ bs) = followedBy (layOut as) (layOut bs) := by
  by_cases ha : as = []
  · subst ha
    rfl
  have hfirst := layOut_ne_empty ha
  by_cases hb : bs = []
  · subst hb
    rw [List.append_nil, followedBy, if_neg hfirst, if_pos (show layOut [] = "" from rfl)]
  · rw [layOut_append ha hb, followedBy, if_neg hfirst, if_neg (layOut_ne_empty hb)]

theorem joinBlocks_append (as bs : List String) :
    joinBlocks (as ++ bs) = followedBy (joinBlocks as) (joinBlocks bs) := by
  rw [joinBlocks_eq_layOut, joinBlocks_eq_layOut, joinBlocks_eq_layOut, List.map_append,
    List.filter_append, layOut_append_eq_followedBy]

/-! ### Documents of a registry -/

namespace Registry

/-- A document of two lists of elements is made of the documents of each. -/
theorem document_append {r : Registry} {as bs : List String} {first second : String}
    (ha : r.document as = .ok first) (hb : r.document bs = .ok second) :
    r.document (as ++ bs) = .ok (followedBy first second) := by
  rw [document_eq_mapM_text, map_eq_ok_iff] at ha hb ⊢
  obtain ⟨texts, htexts, rfl⟩ := ha
  obtain ⟨others, hothers, rfl⟩ := hb
  refine ⟨texts ++ others, ?_, joinBlocks_append texts others⟩
  have hall := List.rel_append (mapM_eq_ok_iff.1 htexts) (mapM_eq_ok_iff.1 hothers)
  exact mapM_eq_ok_iff.2 hall

/-- What is registered of some elements is registered of more. -/
theorem Holds.extends {r r' : Registry} {es es' : List Element} (h : r.Holds es)
    (h' : r'.Holds es') (hs : es ⊆ es') : r.Extends r' := by
  intro name e he
  have hname : e.name = name := name_of_get? he
  have hmem : e ∈ es := (h e).2 (by rw [hname]; exact he)
  have hfound := (h' e).1 (hs hmem)
  rwa [hname] at hfound

end Registry

/-! ### Documents of roots -/

/-- A document stays the same in any registry that also holds other roots. -/
theorem document_of_subset {roots all : List Element} {r : Registry} {text : String}
    (hs : roots ⊆ all) (hr : Registry.ofRoots all = .ok r) (h : document roots = .ok text) :
    r.document (roots.map Element.name) = .ok text := by
  obtain ⟨part, hpart, hdocument⟩ := bind_eq_ok_iff.1 h
  have htrees : Element.treeList roots ⊆ Element.treeList all := by
    intro e he
    obtain ⟨root, hroot, hmem⟩ := Element.mem_treeList.1 he
    exact Element.mem_treeList.2 ⟨root, hs hroot, hmem⟩
  have hext : part.Extends r :=
    (Registry.holds_of_ofRoots hpart).extends (Registry.holds_of_ofRoots hr) htrees
  exact hext.document_eq_ok hdocument

/-- **Documents are put together.** Where the roots of two documents can be registered together,
their document is the first, a newline and the second, or the only one that is not empty. -/
theorem document_append_roots {xs ys : List Element} {first second : String}
    (hx : document xs = .ok first) (hy : document ys = .ok second)
    (hr : ∃ r, Registry.ofRoots (xs ++ ys) = .ok r) :
    document (xs ++ ys) = .ok (
      if first = "" then second
      else if second = "" then first
      else first ++ "\n" ++ second) := by
  obtain ⟨r, hr⟩ := hr
  have hfirst := document_of_subset (List.subset_append_left xs ys) hr hx
  have hsecond := document_of_subset (List.subset_append_right xs ys) hr hy
  have hboth := Registry.document_append hfirst hsecond
  rw [document, hr]
  show r.document ((xs ++ ys).map Element.name) = _
  rw [List.map_append, hboth, followedBy]

/-- The lists share a root and what it embeds, and one root has an empty block. -/
theorem document_append_speakers :
    document [speaker "Ann", pause] = .ok "Ann says \x7b\x7b.words\x7d\x7d\n" ∧
      document [pause, speaker "Bob", speaker "Ann"] =
        .ok "Bob says \x7b\x7b.words\x7d\x7d\n\nAnn says \x7b\x7b.words\x7d\x7d\n" ∧
      (∃ r, Registry.ofRoots ([speaker "Ann", pause] ++ [pause, speaker "Bob", speaker "Ann"]) =
        .ok r) ∧
      document ([speaker "Ann", pause] ++ [pause, speaker "Bob", speaker "Ann"]) =
        .ok ("Ann says \x7b\x7b.words\x7d\x7d\n\nBob says \x7b\x7b.words\x7d\x7d\n\n" ++
          "Ann says \x7b\x7b.words\x7d\x7d\n") := by
  have hself : ∀ root ∈ [speaker "Ann", pause] ++ [pause, speaker "Bob", speaker "Ann"],
      root.SelfContained := by
    simp [selfContained_speaker, selfContained_pause]
  have hcoherent : Coherent (Element.treeList
      ([speaker "Ann", pause] ++ [pause, speaker "Bob", speaker "Ann"])) := by
    unfold Coherent
    decide
  have hr := Registry.exists_ofRoots_iff.2 hcoherent
  have hrx : ∃ r, Registry.ofRoots [speaker "Ann", pause] = .ok r :=
    Registry.exists_ofRoots_iff.2 (by unfold Coherent; decide)
  have hry : ∃ r, Registry.ofRoots [pause, speaker "Bob", speaker "Ann"] = .ok r :=
    Registry.exists_ofRoots_iff.2 (by unfold Coherent; decide)
  have hx : document [speaker "Ann", pause] = .ok "Ann says \x7b\x7b.words\x7d\x7d\n" := by
    obtain ⟨rx, hrx⟩ := hrx
    rw [document_eq_mapM_render (fun root h => hself root (List.mem_append_left _ h)) hrx]
    decide +kernel
  have hy : document [pause, speaker "Bob", speaker "Ann"] =
      .ok "Bob says \x7b\x7b.words\x7d\x7d\n\nAnn says \x7b\x7b.words\x7d\x7d\n" := by
    obtain ⟨ry, hry⟩ := hry
    rw [document_eq_mapM_render (fun root h => hself root (List.mem_append_right _ h)) hry]
    decide +kernel
  refine ⟨hx, hy, hr, (document_append_roots hx hy hr).trans ?_⟩
  rfl

end LogForwarding
