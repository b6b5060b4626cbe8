/-
# Which elements can be expanded

The registered elements form a graph: an element links to those that the slots
of its template name. The expansion walks this graph, whatever its shape, and
its outcome can be read off it: an element has a text if and only if all that
it reaches is registered, has the fields that its template names, and lies on
no cycle. When a cycle stops the expansion, the fault holds a real one.

Key definitions: `Registry.Links`, `Registry.Reaches`, `Element.Complete`,
`Registry.IsCycleFrom`.
Key theorems: `Registry.exists_text_iff_reaches`, `Registry.blames_of_textBelow`,
`Registry.expandable_of_textBelow`.
-/
import LogForwarding.Proofs.Expansion.Unshared
import Mathlib.Data.List.Chain
import Mathlib.Data.List.Nodup

namespace LogForwarding

/-- The key of the field that a placeholder names. -/
def Segment.key? : Segment → Option String
  | text _ => none
  | field key => some key
  | embed slot => some slot

namespace Element

/-- Every field that a placeholder of the template names is set. -/
def Complete (e : Element) : Prop :=
  ∀ segment ∈ e.segments, ∀ key ∈ segment.key?, (e.get? key).isSome

theorem value_eq_ok_iff {e : Element} {key text : String} :
    e.value key = .ok text ↔ e.get? key = some text := by
  unfold value
  cases e.get? key <;> simp

theorem value_eq_error_iff {e : Element} {key : String} {fault : Fault} :
    e.value key = .error fault ↔ e.get? key = none ∧ fault = .missingField e.name key := by
  unfold value
  cases e.get? key <;> simp [eq_comm]

/-- Segments that have a text name fields that are set, and elements that have a text. -/
theorem of_fillWith_eq_ok {e : Element} {textOf : String → Except Fault String}
    {segments : List Segment} {text : String} (h : e.fillWith textOf segments = .ok text) :
    (∀ segment ∈ segments, ∀ key ∈ segment.key?, (e.get? key).isSome) ∧
      ∀ slot child, .embed slot ∈ segments → e.get? slot = some child →
        ∃ inner, textOf child = .ok inner := by
  induction segments generalizing text with
  | nil => simp
  | cons segment rest ih =>
    cases segment with
    | text literal =>
      obtain ⟨_, hrest, _⟩ := bind_eq_ok_iff.1 h
      simpa [Segment.key?] using ih hrest
    | field key =>
      obtain ⟨value, hvalue, h⟩ := bind_eq_ok_iff.1 h
      obtain ⟨_, hrest, _⟩ := bind_eq_ok_iff.1 h
      simpa [Segment.key?, value_eq_ok_iff.1 hvalue] using ih hrest
    | embed slot =>
      obtain ⟨name, hname, h⟩ := bind_eq_ok_iff.1 h
      obtain ⟨inner, hinner, h⟩ := bind_eq_ok_iff.1 h
      obtain ⟨_, hrest, _⟩ := bind_eq_ok_iff.1 h
      obtain ⟨hfields, hembeds⟩ := ih hrest
      have hslot := value_eq_ok_iff.1 hname
      refine ⟨by simpa [Segment.key?, hslot] using hfields, fun slot' child hm hc => ?_⟩
      rcases List.mem_cons.1 hm with heq | hm
      · cases heq
        rw [hslot] at hc
        cases hc
        exact ⟨inner, hinner⟩
      · exact hembeds slot' child hm hc

/-- Why some segments of the template of `e` have no text: a field is not set, or an element that
a slot names has no text. -/
def Obstructed (e : Element) (textOf : String → Except Fault String) (segments : List Segment)
    (fault : Fault) : Prop :=
  (∃ segment ∈ segments, ∃ key ∈ segment.key?,
    e.get? key = none ∧ fault = .missingField e.name key) ∨
  ∃ slot child, .embed slot ∈ segments ∧ e.get? slot = some child ∧ textOf child = .error fault

theorem Obstructed.cons {e : Element} {textOf : String → Except Fault String}
    {rest : List Segment} {fault : Fault} (segment : Segment)
    (h : e.Obstructed textOf rest fault) : e.Obstructed textOf (segment :: rest) fault := by
  rcases h with ⟨s, hs, hk⟩ | ⟨slot, child, hs, hc⟩
  · exact .inl ⟨s, List.mem_cons_of_mem segment hs, hk⟩
  · exact .inr ⟨slot, child, List.mem_cons_of_mem segment hs, hc⟩

theorem obstructed_of_fillWith {e : Element} {textOf : String → Except Fault String}
    {segments : List Segment} {fault : Fault} (h : e.fillWith textOf segments = .error fault) :
    e.Obstructed textOf segments fault := by
  induction segments with
  | nil => cases h
  | cons segment rest ih =>
    cases segment with
    | text literal =>
      rcases bind_eq_error_iff.1 h with hrest | ⟨_, _, h⟩
      · exact (ih hrest).cons _
      · cases h
    | field key =>
      rcases bind_eq_error_iff.1 h with hvalue | ⟨_, _, h⟩
      · exact .inl ⟨_, List.mem_cons_self, key, rfl, value_eq_error_iff.1 hvalue⟩
      · rcases bind_eq_error_iff.1 h with hrest | ⟨_, _, h⟩
        · exact (ih hrest).cons _
        · cases h
    | embed slot =>
      rcases bind_eq_error_iff.1 h with hvalue | ⟨name, hname, h⟩
      · exact .inl ⟨_, List.mem_cons_self, slot, rfl, value_eq_error_iff.1 hvalue⟩
      · rcases bind_eq_error_iff.1 h with hchild | ⟨_, _, h⟩
        · exact .inr ⟨slot, name, List.mem_cons_self, value_eq_ok_iff.1 hname, hchild⟩
        · rcases bind_eq_error_iff.1 h with hrest | ⟨_, _, h⟩
          · exact (ih hrest).cons _
          · cases h

end Element

namespace Registry

/-- A slot in the template of the element `a` holds the name `b`. -/
def Links (r : Registry) (a b : String) : Prop :=
  ∃ e slot, r.get? a = some e ∧ .embed slot ∈ e.segments ∧ e.get? slot = some b

/-- Some links, or none, lead from one name to the other. -/
def Reaches (r : Registry) : String → String → Prop := Relation.ReflTransGen r.Links

/-- At least one link leads from the name back to it. -/
def OnCycle (r : Registry) (name : String) : Prop := Relation.TransGen r.Links name name

/-- The names form a walk along links that starts at `name`, passes no name twice, and ends at one
that it has passed. -/
structure IsCycleFrom (r : Registry) (name : String) (chain : List String) : Prop where
  starts : chain.head? = some name
  linked : chain.IsChain r.Links
  distinct : chain.dropLast.Nodup
  closes : ∃ last ∈ chain.dropLast, chain.getLast? = some last

/-! ### An element with a text -/

/-- All that the element embeds, at any depth, is registered and has its fields set. Being a
derivation of finite depth, it leaves no room for a cycle. -/
inductive Expandable (r : Registry) : String → Prop where
  | intro {name : String} {e : Element} (hr : r.get? name = some e) (he : e.Complete)
      (hlinks : ∀ child, r.Links name child → r.Expandable child) : r.Expandable name

theorem expandable_of_textBelow {r : Registry} {opened : List String} {name text : String}
    (h : r.textBelow opened name = .ok text) : r.Expandable name := by
  obtain ⟨e, ho, hr, hfill⟩ := textBelow_eq_ok_iff.1 h
  have hlt := unopened_cons_lt (mem_names.2 (Option.isSome_of_mem hr)) ho
  obtain ⟨hfields, hembeds⟩ := Element.of_fillWith_eq_ok hfill
  refine .intro hr hfields fun child hlink => ?_
  obtain ⟨e', slot, hr', hslot, hchild⟩ := hlink
  rw [hr] at hr'
  cases hr'
  obtain ⟨inner, hinner⟩ := hembeds slot child hslot hchild
  exact expandable_of_textBelow hinner
termination_by r.unopened opened

theorem Expandable.of_reaches {r : Registry} {a b : String} (h : r.Expandable a)
    (hab : r.Reaches a b) : r.Expandable b := by
  induction hab with
  | refl => exact h
  | tail _ hlink ih =>
    cases ih with
    | intro _ _ hlinks => exact hlinks _ hlink

theorem Expandable.not_onCycle {r : Registry} {name : String} (h : r.Expandable name) :
    ¬ r.OnCycle name := by
  induction h with
  | intro _ _ _ ih =>
    intro hcycle
    -- The cycle can be entered one link later, at a name whose derivation is smaller.
    obtain ⟨child, hlink, hback⟩ := Relation.TransGen.head'_iff.1 hcycle
    exact ih child hlink (Relation.TransGen.tail' hback hlink)

/-! ### An element without a text -/

/-- A walk along links that starts at the last name of `opened` reaches the first. -/
theorem reaches_of_isChain {r : Registry} {start name : String} {opened : List String}
    (hchain : (name :: opened).IsChain fun a b => r.Links b a)
    (hstart : (name :: opened).getLast? = some start) : r.Reaches start name := by
  induction opened generalizing name with
  | nil =>
    cases hstart
    exact .refl
  | cons next opened ih =>
    obtain ⟨hlink, hrest⟩ := List.isChain_cons_cons.1 hchain
    exact (ih hrest (by simpa using hstart)).tail hlink

/-- What a fault of the expansion of `start` says is so. -/
inductive Blames (r : Registry) (start : String) : Fault → Prop where
  | unknown {name : String} (hreach : r.Reaches start name) (h : r.get? name = none) :
      r.Blames start (.unknownElement name)
  | missing {name : String} {e : Element} {key : String} (hreach : r.Reaches start name)
      (hr : r.get? name = some e) (hsome : ∃ segment ∈ e.segments, key ∈ segment.key?)
      (hkey : e.get? key = none) : r.Blames start (.missingField name key)
  | cycle {chain : List String} (h : r.IsCycleFrom start chain) :
      r.Blames start (.templateCycle chain)

/-- While the expansion of `start` has come to `name` by a walk along links through names that
are open, each fault says what is so. -/
theorem blames_of_textBelow {r : Registry} {start name : String} {opened : List String}
    {fault : Fault} (hchain : (name :: opened).IsChain fun a b => r.Links b a)
    (hstart : (name :: opened).getLast? = some start) (hnodup : opened.Nodup)
    (h : r.textBelow opened name = .error fault) : r.Blames start fault := by
  have hreach := reaches_of_isChain hchain hstart
  by_cases ho : name ∈ opened
  · rw [textBelow_of_mem ho] at h
    cases h
    refine .cycle ⟨?_, List.isChain_reverse.2 hchain, ?_, name, ?_, ?_⟩
    · rw [List.head?_reverse, hstart]
    · simpa using List.nodup_reverse.2 hnodup
    · simpa using ho
    · simp
  cases hr : r.get? name with
  | none =>
    rw [textBelow_of_none ho hr] at h
    cases h
    exact .unknown hreach hr
  | some e =>
    have hn : name ∈ r.names := mem_names.2 (by simp [hr])
    have hlt := unopened_cons_lt hn ho
    rw [textBelow_of_some ho hr] at h
    rcases Element.obstructed_of_fillWith h with ⟨s, hs, key, hkey, hnone, rfl⟩ | h
    · rw [name_of_get? hr]
      exact .missing hreach hr ⟨s, hs, hkey⟩ hnone
    · obtain ⟨slot, child, hslot, hchild, h⟩ := h
      refine blames_of_textBelow (List.isChain_cons_cons.2 ⟨?_, hchain⟩) ?_ ?_ h
      · exact ⟨e, slot, hr, hslot, hchild⟩
      · simpa using hstart
      · exact List.nodup_cons.2 ⟨ho, hnodup⟩
termination_by r.unopened opened

theorem blames_of_text {r : Registry} {name : String} {fault : Fault}
    (h : r.text name = .error fault) : r.Blames name fault := by
  rw [text_eq_textBelow] at h
  exact blames_of_textBelow (.singleton name) rfl .nil h

theorem reaches_of_isChain_concat {r : Registry} {a b : String} {middle : List String}
    (h : (a :: (middle ++ [b])).IsChain r.Links) : Relation.TransGen r.Links a b := by
  induction middle generalizing a with
  | nil => exact .single (List.isChain_cons_cons.1 h).1
  | cons next middle ih =>
    obtain ⟨hlink, hrest⟩ := List.isChain_cons_cons.1 h
    exact (ih hrest).head hlink

/-- A walk that comes back to a name it has passed goes round a cycle. -/
theorem IsCycleFrom.exists_onCycle {r : Registry} {name : String} {chain : List String}
    (h : r.IsCycleFrom name chain) : ∃ m, r.Reaches name m ∧ r.OnCycle m := by
  obtain ⟨last, hmem, hlast⟩ := h.closes
  obtain ⟨before, after, hsplit⟩ := List.append_of_mem hmem
  have hchain : chain = before ++ last :: (after ++ [last]) := by
    rw [← List.dropLast_append_getLast? last hlast, hsplit]
    simp
  have hlinked := h.linked
  have hstarts := h.starts
  rw [hchain] at hlinked hstarts
  refine ⟨last, ?_, reaches_of_isChain_concat hlinked.right_of_append⟩
  cases before with
  | nil =>
    cases hstarts
    exact .refl
  | cons first before =>
    cases hstarts
    have hwalk : (name :: (before ++ [last])).IsChain r.Links :=
      hlinked.prefix ⟨after ++ [last], by simp⟩
    exact (reaches_of_isChain_concat hwalk).to_reflTransGen

/-- **The outcome of an expansion.** The element `name` has a text if and only if all that it
reaches is registered, has the fields that its template names, and lies on no cycle. A fault that
tells of a cycle holds a walk from `name` into a real one, and shows its names with arrows between
them. -/
theorem exists_text_iff_reaches (r : Registry) (name : String) :
    ((∃ text, r.text name = .ok text) ↔
      ∀ m, r.Reaches name m → (∃ e, r.get? m = some e ∧ e.Complete) ∧ ¬ r.OnCycle m) ∧
    ∀ chain, r.text name = .error (.templateCycle chain) →
      r.IsCycleFrom name chain ∧
        (Fault.templateCycle chain).message =
          "cyclic template reference: " ++ String.intercalate " -> " chain := by
  refine ⟨⟨?_, ?_⟩, ?_⟩
  · rintro ⟨text, h⟩ m hm
    rw [text_eq_textBelow] at h
    have hexp := (expandable_of_textBelow h).of_reaches hm
    refine ⟨?_, hexp.not_onCycle⟩
    cases hexp with
    | intro hr he _ => exact ⟨_, hr, he⟩
  · intro h
    rw [exists_eq_ok_iff]
    intro fault hfault
    cases blames_of_text hfault with
    | unknown hreach hnone =>
      obtain ⟨⟨e, hr, _⟩, _⟩ := h _ hreach
      rw [hnone] at hr
      cases hr
    | missing hreach hr hsome hkey =>
      obtain ⟨⟨e, hr', he⟩, _⟩ := h _ hreach
      rw [hr] at hr'
      cases hr'
      obtain ⟨segment, hs, hk⟩ := hsome
      simpa [hkey] using he segment hs _ hk
    | cycle hcycle =>
      obtain ⟨m, hreach, hm⟩ := hcycle.exists_onCycle
      exact (h m hreach).2 hm
  · intro chain h
    cases blames_of_text h with
    | cycle hcycle => exact ⟨hcycle, rfl⟩

end Registry

end LogForwarding
