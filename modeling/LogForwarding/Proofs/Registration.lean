/-
# What registering makes of some roots

Roots are registered by a walk through their trees: each element is added
before those that it embeds, one root after the other, and the walk ends early
at an element that differs from one of its name. What comes of it does not
depend on the way that the walk takes. It arrives if elements of one name are
equal wherever they occur, and the registry then has the names that occur, each
with its element; so it makes no difference in which order the roots stand, and
how often. No element of it contains one of its own name, for the two would be
equal, and an element is larger than what it contains.

Key definitions: `Element.Contains`, `Element.Occurs`, `Registry.registerAll`,
`Registry.Registers`.
Key theorems: `Element.occurs_iff_mem_treeList`,
`Registry.registerAll_eq_foldlM`, `Registry.Holds.eq`,
`Registry.ofRoots_registers`.
-/
import LogForwarding.Proofs.Expansion.Tree

namespace LogForwarding

namespace Element

/-! ### Elements below others -/

/-- `e` embeds `d` itself. -/
def Embeds (e d : Element) : Prop := d ∈ e.embeds

/-- `e` contains `d` at some depth below it. -/
def Contains : Element → Element → Prop := Relation.TransGen Embeds

/-- `d` is one of the roots, or one of them contains it. -/
def Occurs (roots : List Element) (d : Element) : Prop :=
  ∃ root ∈ roots, d = root ∨ root.Contains d

theorem reaches_of_mem_tree {e d : Element} (h : d ∈ e.tree) :
    Relation.ReflTransGen Embeds e d := by
  rw [tree_eq_cons, List.mem_cons, List.mem_flatMap] at h
  rcases h with rfl | ⟨child, hc, hd⟩
  · exact .refl
  · have hlt := sizeOf_lt_of_mem_embeds hc
    exact .head hc (reaches_of_mem_tree hd)
termination_by sizeOf e

/-- The tree of an element has what can be reached by going from elements to those they embed. -/
theorem mem_tree_iff {e d : Element} : d ∈ e.tree ↔ Relation.ReflTransGen Embeds e d := by
  refine ⟨reaches_of_mem_tree, fun h => ?_⟩
  induction h using Relation.ReflTransGen.head_induction_on with
  | refl => exact d.mem_tree_self
  | head hc _ ih => exact tree_subset_of_mem_embeds hc ih

theorem occurs_iff_mem_treeList {roots : List Element} {d : Element} :
    Occurs roots d ↔ d ∈ treeList roots := by
  simp only [mem_treeList, mem_tree_iff, Relation.reflTransGen_iff_eq_or_transGen]
  exact Iff.rfl

theorem Occurs.of_contains {roots : List Element} {e d : Element} (h : Occurs roots e)
    (hd : e.Contains d) : Occurs roots d := by
  obtain ⟨root, hroot, rfl | he⟩ := h
  · exact ⟨e, hroot, .inr hd⟩
  · exact ⟨root, hroot, .inr (he.trans hd)⟩

/-- An element is larger than what it contains. -/
theorem Contains.sizeOf_lt {e d : Element} (h : e.Contains d) : sizeOf d < sizeOf e := by
  induction h with
  | single hc => exact sizeOf_lt_of_mem_embeds hc
  | tail _ hc ih => exact Nat.lt_trans (sizeOf_lt_of_mem_embeds hc) ih

end Element

namespace Registry

/-! ### The walk -/

mutual

/-- Add an element, and then all that it embeds. -/
def register (r : Registry) : Element → Except Fault Registry
  | e@⟨_, _, _, _, _, embeds⟩ => do
    let r ← r.insert e
    r.registerAll embeds

/-- Register one element after the other. -/
def registerAll (r : Registry) : List Element → Except Fault Registry
  | [] => .ok r
  | e :: es => do
    let r ← r.register e
    r.registerAll es

end

mutual

/-- The walk meets the elements of a tree in order. -/
theorem register_eq_foldlM (r : Registry) :
    (e : Element) → r.register e = e.tree.foldlM Registry.insert r
  | e@⟨_, _, _, _, _, embeds⟩ => by
    rw [register, Element.tree, List.foldlM_cons]
    exact bind_congr_ok fun r' _ => registerAll_eq_foldlM r' embeds

theorem registerAll_eq_foldlM (r : Registry) :
    (es : List Element) → r.registerAll es = (Element.treeList es).foldlM Registry.insert r
  | [] => rfl
  | e :: es => by
    rw [registerAll, Element.treeList, List.foldlM_append, register_eq_foldlM r e]
    exact bind_congr_ok fun r' _ => registerAll_eq_foldlM r' es

end

/-! ### What it ends with -/

variable {r s : Registry}

/-- A registry is told by what is found in it. -/
theorem ext_get? (h : ∀ name, r.get? name = s.get? name) : r = s := by
  have helements : r.elements = s.elements := Std.ExtTreeMap.ext_getElem? h
  cases r
  cases s
  simpa using helements

/-- There is only one registry that holds some given elements. -/
theorem Holds.eq {es es' : List Element} (h : r.Holds es) (h' : s.Holds es')
    (hmem : ∀ e, e ∈ es ↔ e ∈ es') : r = s := by
  have hfound : ∀ name e, r.get? name = some e ↔ s.get? name = some e := by
    intro name e
    constructor <;> intro he
    · obtain rfl := name_of_get? he
      exact (h' e).1 ((hmem e).1 ((h e).2 he))
    · obtain rfl := name_of_get? he
      exact (h e).1 ((hmem e).2 ((h' e).2 he))
  exact ext_get? fun name => Option.ext (hfound name)

/-- The registry is what can be made of the roots. -/
structure Registers (r : Registry) (roots : List Element) : Prop where
  /-- Its names are those that occur. -/
  names : ∀ name, name ∈ r.names ↔ ∃ e, Element.Occurs roots e ∧ e.name = name
  /-- Under each stands the element that occurs with it. -/
  found : ∀ e, Element.Occurs roots e → r.get? e.name = some e
  /-- No element contains one of its own name. -/
  unnested : ∀ e d, Element.Occurs roots e → e.Contains d → d.name ≠ e.name

theorem registers_of_ofRoots {roots : List Element} (h : ofRoots roots = .ok r) :
    r.Registers roots := by
  have hholds := holds_of_ofRoots h
  have hfound : ∀ e, Element.Occurs roots e → r.get? e.name = some e :=
    fun e he => (hholds e).1 (Element.occurs_iff_mem_treeList.1 he)
  refine ⟨fun name => ?_, hfound, fun e d he hd hname => ?_⟩
  · rw [mem_names, Option.isSome_iff_exists]
    constructor
    · rintro ⟨e, he⟩
      obtain rfl := name_of_get? he
      exact ⟨e, Element.occurs_iff_mem_treeList.2 ((hholds e).2 he), rfl⟩
    · rintro ⟨e, he, rfl⟩
      exact ⟨e, hfound e he⟩
  · have hsame : d = e := by
      have hd' := hfound d (he.of_contains hd)
      rw [hname, hfound e he] at hd'
      exact (Option.some.inj hd').symm
    exact Nat.lt_irrefl _ (hsame ▸ hd.sizeOf_lt)

/-- Roots are registered alike in whichever order they stand, and however often. -/
theorem ofRoots_of_mem_iff {roots roots' : List Element} (hmem : ∀ e, e ∈ roots ↔ e ∈ roots')
    (h : ofRoots roots = .ok r) : ofRoots roots' = .ok r := by
  have htrees : ∀ e, e ∈ Element.treeList roots ↔ e ∈ Element.treeList roots' := by
    simp only [Element.mem_treeList, hmem, implies_true]
  have hc : Coherent (Element.treeList roots) := exists_ofRoots_iff.1 ⟨r, h⟩
  obtain ⟨s, hs⟩ := exists_ofRoots_iff.2 (hc.subset fun e => (htrees e).2)
  rw [hs, (holds_of_ofRoots h).eq (holds_of_ofRoots hs) htrees]

/-- **What registering comes to.** The walk through the trees of some roots succeeds if and only if
elements of one name are equal wherever they occur. The registry then has the names that occur,
each with its element, none of which contains another of its name; and other lists of the same
roots give the same registry, or none either. -/
theorem ofRoots_registers (roots : List Element) :
    registerAll ∅ roots = ofRoots roots ∧
    ((∃ r, ofRoots roots = .ok r) ↔ ∀ a b, Element.Occurs roots a → Element.Occurs roots b →
      a.name = b.name → a = b) ∧
    (∀ r, ofRoots roots = .ok r → r.Registers roots) ∧
    ∀ roots', (∀ e, e ∈ roots' ↔ e ∈ roots) →
      ∀ r, ofRoots roots' = .ok r ↔ ofRoots roots = .ok r := by
  refine ⟨registerAll_eq_foldlM ∅ roots, ?_, fun r => registers_of_ofRoots, fun roots' hmem r => ?_⟩
  · simp only [exists_ofRoots_iff, Element.occurs_iff_mem_treeList, Coherent]
    exact ⟨fun h a b ha => h a ha b, fun h a ha b => h a b ha⟩
  · exact ⟨ofRoots_of_mem_iff hmem, ofRoots_of_mem_iff fun e => (hmem e).symm⟩

end Registry

end LogForwarding
